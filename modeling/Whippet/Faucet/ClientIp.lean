import Whippet.Indexer.ClientIp

/-! The address under which the faucet counts a client's claims, against the one that the indexer uses. -/
namespace Whippet.Faucet
open Lib
open Indexer (Text ClientRequest isSpace trimSpace lastEntry normalizeIP)

def nonBlank? (entry : Text) : Option Text := if trimSpace entry = [] then none else some (trimSpace entry)

def clientAddr (r : ClientRequest) (trustProxy : Bool) : Text :=
  if trustProxy then
    if r.xForwardedFor ≠ [] then
      -- the proxy was to append an entry after the comma
      if (trimSpace r.xForwardedFor).getLast? = some ',' then r.remoteAddr
      else ((r.xForwardedFor.splitOn ',').reverse.findSome? nonBlank?).getD r.remoteAddr
    else r.remoteAddr
  else r.remoteAddr

def clientIP (r : ClientRequest) (trustProxy : Bool) : Text := hostOf (clientAddr r trustProxy)

section
variable {t l e : Text} {r : ClientRequest} {trustProxy : Bool}

theorem splitOn_append (l : Text) (h : ',' ∉ e) : (l ++ ',' :: e).splitOn ',' = l.splitOn ',' ++ [e] := by
  rw [List.splitOn, List.splitOnP_append_cons _ _ (by simp)]
  exact congrArg _ (List.splitOn_eq_singleton h)

theorem getLast?_trimSpace (l : Text) (h : ',' ∉ e) :
    (trimSpace (l ++ ',' :: e)).getLast? = some ',' ↔ trimSpace e = [] := by
  have hlast := getLast?_strip isSpace (l ++ ',' :: e)
  have hentry := getLast?_strip isSpace e
  rw [List.reverse_append, List.reverse_cons, List.append_assoc, List.find?_append, ← hentry] at hlast
  rw [trimSpace, hlast]
  cases htrim : (strip isSpace e).getLast? with
  | none =>
    have hblank : trimSpace e = [] := List.getLast?_eq_none_iff.mp htrim
    simp [hblank, isSpace]
  | some c =>
    have hc : c ∈ e := by
      rw [htrim] at hentry
      exact List.mem_reverse.mp (List.mem_of_find?_eq_some hentry.symm)
    have hcomma : c ≠ ',' := fun heq => h (heq ▸ hc)
    have hblank : trimSpace e ≠ [] := by
      intro hblank
      rw [show strip isSpace e = [] from hblank] at htrim
      cases htrim
    simp [hcomma, hblank]

theorem lastEntry_append (l : Text) (h : ',' ∉ e) : lastEntry (l ++ ',' :: e) = e := by
  simp [lastEntry, splitOn_append l h]

theorem lastEntry_of_notMem (h : ',' ∉ t) : lastEntry t = t := by
  simp [lastEntry, List.splitOn_eq_singleton h]

def countedAddr (r : ClientRequest) (trustProxy : Bool) : Text :=
  if trustProxy = true ∧ trimSpace (lastEntry r.xForwardedFor) ≠ [] then trimSpace (lastEntry r.xForwardedFor)
  else r.remoteAddr

theorem clientAddr_eq (r : ClientRequest) (trustProxy : Bool) : clientAddr r trustProxy = countedAddr r trustProxy := by
  cases trustProxy with
  | false => simp [clientAddr, countedAddr]
  | true =>
    rw [clientAddr, if_pos rfl, countedAddr]
    simp only [true_and]
    cases hsplit : splitLast ',' r.xForwardedFor with
    | none =>
      have hcomma : ',' ∉ r.xForwardedFor := splitLast_eq_none.mp hsplit
      have hend : (trimSpace r.xForwardedFor).getLast? ≠ some ',' := by
        intro hend
        rw [trimSpace, getLast?_strip] at hend
        exact hcomma (List.mem_reverse.mp (List.mem_of_find?_eq_some hend))
      rw [lastEntry_of_notMem hcomma, if_neg hend, List.splitOn_eq_singleton hcomma]
      by_cases hempty : r.xForwardedFor = []
      · rw [if_neg (not_not.mpr hempty), hempty]
        rfl
      · rw [if_pos hempty]
        by_cases hblank : trimSpace r.xForwardedFor = [] <;> simp [nonBlank?, hblank]
    | some parts =>
      obtain ⟨l, e⟩ := parts
      obtain ⟨hheader, hcomma⟩ := splitLast_spec hsplit
      rw [hheader, lastEntry_append l hcomma, if_pos (by simp), splitOn_append l hcomma]
      by_cases hblank : trimSpace e = []
      · rw [if_pos ((getLast?_trimSpace l hcomma).mpr hblank), if_neg (not_not.mpr hblank)]
      · rw [if_neg (mt (getLast?_trimSpace l hcomma).mp hblank), if_pos hblank]
        simp [nonBlank?, hblank]

/-- The address is in the spelling of its own, and no other header speaks up in its place; or nothing that
is read is an address. -/
def SameSpelling (r : ClientRequest) (trustProxy : Bool) : Prop :=
  let addr := countedAddr r trustProxy
  (normalizeIP addr = some (hostOf addr) ∧
    (trustProxy = true → trimSpace (lastEntry r.xForwardedFor) = [] →
      normalizeIP r.xRealIP = none ∨ normalizeIP r.xRealIP = some (hostOf r.remoteAddr))) ∨
  (normalizeIP addr = none ∧ hostOf addr = r.remoteAddr ∧ normalizeIP r.remoteAddr = none ∧
    (trustProxy = true → normalizeIP r.xRealIP = none))

instance (r : ClientRequest) (trustProxy : Bool) : Decidable (SameSpelling r trustProxy) :=
  inferInstanceAs (Decidable ((_ ∧ (_ → _ → _ ∨ _)) ∨ (_ ∧ _ ∧ _ ∧ (_ → _))))

theorem normalizeIP_eq_hostOf {a b : Text} (h : normalizeIP b = some (hostOf a)) : normalizeIP a = some (hostOf a) := by
  obtain ⟨gs, hgs, htext⟩ := Indexer.normalizeIP_spec h
  rw [htext]
  exact Indexer.normalizeIP_of_hostOf hgs htext

theorem normalizeIP_of_blank (h : trimSpace t = []) : normalizeIP t = none := by
  rw [normalizeIP]
  simp only [if_pos h]

theorem clientIP_eq_iff (r : ClientRequest) (trustProxy : Bool) :
    Indexer.clientIP r trustProxy = clientIP r trustProxy ↔ SameSpelling r trustProxy := by
  rw [clientIP, clientAddr_eq, Indexer.clientIP, Indexer.forwardedForIP_eq, SameSpelling]
  cases trustProxy with
  | false =>
    have haddr : countedAddr r false = r.remoteAddr := by simp [countedAddr]
    rw [haddr]
    cases hremote : normalizeIP r.remoteAddr <;> simp [eq_comm (a := r.remoteAddr)]
  | true =>
    by_cases hblank : trimSpace (lastEntry r.xForwardedFor) = []
    · have haddr : countedAddr r true = r.remoteAddr := by simp [countedAddr, hblank]
      rw [haddr, normalizeIP_of_blank hblank]
      cases hreal : normalizeIP r.xRealIP with
      | none => cases hremote : normalizeIP r.remoteAddr <;> simp [eq_comm (a := r.remoteAddr)]
      | some ip =>
        have hown : ip = hostOf r.remoteAddr → normalizeIP r.remoteAddr = some (hostOf r.remoteAddr) := by
          rintro rfl
          exact normalizeIP_eq_hostOf hreal
        simpa [hblank] using hown
    · have haddr : countedAddr r true = trimSpace (lastEntry r.xForwardedFor) := by simp [countedAddr, hblank]
      have hown : ∀ b ip, normalizeIP b = some ip → ip = hostOf (trimSpace (lastEntry r.xForwardedFor)) →
          normalizeIP (lastEntry r.xForwardedFor) = some ip := by
        rintro b ip hb rfl
        rw [← Indexer.normalizeIP_trimSpace]
        exact normalizeIP_eq_hostOf hb
      rw [haddr, Indexer.normalizeIP_trimSpace]
      cases hentry : normalizeIP (lastEntry r.xForwardedFor) with
      | some ip => simp [hblank]
      | none =>
        cases hreal : normalizeIP r.xRealIP with
        | some ip =>
          have hne := mt (hown _ ip hreal) (by simp [hentry])
          simpa using hne
        | none =>
          cases hremote : normalizeIP r.remoteAddr with
          | some ip =>
            have hne := mt (hown _ ip hremote) (by simp [hentry])
            simpa using hne
          | none => simp [eq_comm (a := r.remoteAddr)]

/-- What stands before the entry that the proxy appended does not count. -/
theorem clientIP_congr (r r' : ClientRequest) (hentry : lastEntry r'.xForwardedFor = lastEntry r.xForwardedFor)
    (hip : (normalizeIP (lastEntry r.xForwardedFor)).isSome = true) :
    Indexer.clientIP r' true = Indexer.clientIP r true ∧ clientIP r' true = clientIP r true := by
  have hblank : trimSpace (lastEntry r.xForwardedFor) ≠ [] := by
    intro hblank
    rw [normalizeIP_of_blank hblank] at hip
    cases hip
  obtain ⟨ip, hip⟩ := Option.isSome_iff_exists.mp hip
  refine ⟨?_, ?_⟩
  · simp [Indexer.clientIP, Indexer.forwardedForIP_eq, hentry, hip]
  · simp [clientIP, clientAddr_eq, countedAddr, hentry, hblank]

/-- The two services identify a client the same way, by the entry of the trusted proxy alone where that is an
address, exactly when the address counted is spelled the way the indexer spells it. -/
theorem same_client_iff (r : ClientRequest) (trustProxy : Bool) :
    (Indexer.clientIP r trustProxy = clientIP r trustProxy ∧
      (trustProxy = true → (normalizeIP (lastEntry r.xForwardedFor)).isSome = true →
        ∀ r' : ClientRequest, lastEntry r'.xForwardedFor = lastEntry r.xForwardedFor →
          Indexer.clientIP r' trustProxy = Indexer.clientIP r trustProxy ∧
            clientIP r' trustProxy = clientIP r trustProxy)) ↔
      SameSpelling r trustProxy := by
  rw [clientIP_eq_iff]
  refine and_iff_left ?_
  rintro rfl hip r' hentry
  exact clientIP_congr r r' hentry hip

/-- A client that made up the front of its header, behind a proxy that appended the address of the connection. -/
def forwarded (front : String) : ClientRequest where
  remoteAddr := "10.0.0.1:4000".toList
  xForwardedFor := (front ++ ", 2001:db8::7").toList
  xRealIP := []

theorem same_client_forwarded :
    (Indexer.clientIP (forwarded "8.8.8.8") true = clientIP (forwarded "8.8.8.8") true ∧
      Indexer.clientIP (forwarded "9.9.9.9") true = Indexer.clientIP (forwarded "8.8.8.8") true ∧
        clientIP (forwarded "9.9.9.9") true = clientIP (forwarded "8.8.8.8") true) ∧
      clientIP (forwarded "8.8.8.8") true = "2001:db8::7".toList := by
  have hsame := (same_client_iff (forwarded "8.8.8.8") true).mpr (by decide +kernel)
  exact ⟨⟨hsame.1, hsame.2 rfl (by decide +kernel) (forwarded "9.9.9.9") (by decide +kernel)⟩, by decide +kernel⟩

/-- Without the list the indexer goes by the other header, and the faucet by the connection; and the faucet takes an
address as it is spelled. -/
theorem same_client_fails :
    let direct : ClientRequest := ⟨"1.2.3.4:5".toList, [], "9.9.9.9".toList⟩
    let upper : ClientRequest := ⟨"1.2.3.4:5".toList, "2001:DB8:0:0::1".toList, []⟩
    Indexer.clientIP direct true = "9.9.9.9".toList ∧ clientIP direct true = "1.2.3.4".toList ∧
      Indexer.clientIP upper true = "2001:db8::1".toList ∧ clientIP upper true = "2001:DB8:0:0::1".toList := by
  decide +kernel

end

end Whippet.Faucet
