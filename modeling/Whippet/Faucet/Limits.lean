import Whippet.Faucet.Handler
import Whippet.Lib.Run

/-! The limits of the faucet hold where no two handlers are between their checks and their record at once. -/
namespace Whippet.Faucet
open Lib
open Indexer (Text decimal)

section
variable {α β : Type*}

theorem countP_le_one {R : α → α → Prop} {p : α → Bool} {l : List α} (h : l.Pairwise R)
    (hR : ∀ x y, R x y → p x = true → p y = true → False) : l.countP p ≤ 1 := by
  induction h with
  | nil => simp
  | @cons x l hx _ ih =>
    rw [List.countP_cons]
    split_ifs with hp
    · have hnone : l.countP p = 0 := by
        rw [List.countP_eq_zero]
        exact fun y hy hpy => hR x y (hx y hy) hp hpy
      omega
    · exact ih

theorem countP_le_of_forall₂ {R : α → β → Prop} {p : α → Bool} {q : β → Bool} {l : List α} {l' : List β}
    (h : List.Forall₂ R l l') (hR : ∀ x y, R x y → p x = true → q y = true) : l.countP p ≤ l'.countP q := by
  induction h with
  | nil => simp
  | @cons x y l l' hxy _ ih =>
    rw [List.countP_cons, List.countP_cons]
    by_cases hp : p x = true
    · rw [if_pos hp, if_pos (hR x y hxy hp)]
      omega
    · rw [if_neg hp]
      omega

end

variable {α : Type}

/-- The handler is between its first check and its record. -/
def Pc.busy : Pc α → Bool
  | .validateAddress | .readCutoff | .done .. => false
  | .countIp _ | .countCookie _ | .getDailyClaimLimit | .readToday _ | .getClaimsToday .. | .getFaucetAmount
  | .sendToAddress _ | .readTimestamp _ | .logRequest .. => true

/-- A handler starts its checks only while no other is busy, and the record of a claim is written. -/
def Allowed (s : State α) (answer : Answer) : Pc α → Prop
  | .readCutoff => ∀ q ∈ s.procs, q.pc.busy = false
  | .logRequest .. => answer.ok = true
  | _ => True

def Exclusive (s : State α) : Event → Prop
  | .wait _ | .post _ => True
  | .step i answer => ∀ p ∈ s.procs[i]?, Allowed s answer p.pc

instance (s : State α) (answer : Answer) : ∀ pc, Decidable (Allowed s answer pc)
  | .readCutoff => inferInstanceAs (Decidable (∀ q ∈ s.procs, q.pc.busy = false))
  | .logRequest .. => inferInstanceAs (Decidable (answer.ok = true))
  | .validateAddress | .countIp _ | .countCookie _ | .getDailyClaimLimit | .readToday _ | .getClaimsToday ..
  | .getFaucetAmount | .sendToAddress _ | .readTimestamp _ | .done .. => inferInstanceAs (Decidable True)

instance (s : State α) : ∀ e, Decidable (Exclusive s e)
  | .wait _ | .post _ => inferInstanceAs (Decidable True)
  | .step i answer => inferInstanceAs (Decidable (∀ p ∈ s.procs[i]?, Allowed s answer p.pc))

structure Records (x : Send α) (row : Row) : Prop where
  ip : row.ip = x.ip
  cookie : row.cookie = x.cookie.getD []
  timestamp : x.time ≤ row.timestamp

def Logged (requests : List Row) (sends : List (Send α)) : Prop :=
  ∃ old new, requests = old ++ new ∧ List.Forall₂ Records sends new

/-- No send of the request's client in the last 24 hours. -/
structure Cleared (s : State α) (r : Post) : Prop where
  logged : Logged s.requests s.sends
  ip : ∀ x ∈ s.sends, x.ip = r.ip → x.time + 86400 ≤ unix s.now
  cookie : ∀ value ≠ [], r.cookie = some value → ∀ x ∈ s.sends, x.cookie = some value → x.time + 86400 ≤ unix s.now

def HasRoom (s : State α) : Prop := ∃ limit, s.config.limit? = some limit ∧
  ∀ day, unix s.now / 86400 ≤ day → (s.sends.countP (fun x => x.time / 86400 = day) : ℤ) < limit

/-- The last send is the request's own, and the ones before are recorded. -/
def Unlogged (s : State α) (r : Post) (latest : ℤ) : Prop := ∃ earlier x, s.sends = earlier ++ [x] ∧
  Logged s.requests earlier ∧ x.ip = r.ip ∧ x.cookie = r.cookie ∧ x.time ≤ latest

/-- What a busy handler has found out, while no other can change it. -/
def Knows (s : State α) (r : Post) : Pc α → Prop
  | .validateAddress | .readCutoff | .done .. => True
  | .countIp cutoff => cutoff + 86400 ≤ unix s.now ∧ Logged s.requests s.sends
  | .countCookie cutoff => cutoff + 86400 ≤ unix s.now ∧ Logged s.requests s.sends ∧
      ∀ x ∈ s.sends, x.ip = r.ip → x.time + 86400 ≤ unix s.now
  | .getDailyClaimLimit => Cleared s r
  | .readToday dailyLimit => Cleared s r ∧ s.config.limit? = some dailyLimit
  | .getClaimsToday dailyLimit start => Cleared s r ∧ s.config.limit? = some dailyLimit ∧
      ∃ t ≤ unix s.now, start = startOfDay t ∧ ∀ x ∈ s.sends, x.time ≤ t
  | .getFaucetAmount | .sendToAddress _ => Cleared s r ∧ HasRoom s
  | .readTimestamp _ => Unlogged s r (unix s.now)
  | .logRequest _ timestamp => Unlogged s r timestamp

structure Inv (s : State α) : Prop where
  past : ∀ x ∈ s.sends, x.time ≤ unix s.now
  perIp : s.sends.Pairwise fun x y => x.ip = y.ip → x.time + 86400 ≤ y.time
  perCookie : s.sends.Pairwise fun x y => ∀ value ≠ [], x.cookie = some value → y.cookie = some value →
    x.time + 86400 ≤ y.time
  daily : ∀ limit, s.config.limit? = some limit → ∀ day, s.sends.countP (fun x => x.time / 86400 = day) ≤ limit.toNat
  issued : ∀ value ∈ s.issued, value ≠ []
  alone : ∀ (i j : ℕ) p q, s.procs[i]? = some p → s.procs[j]? = some q → p.pc.busy = true → q.pc.busy = true → i = j
  idle : (∀ p ∈ s.procs, p.pc.busy = false) → Logged s.requests s.sends
  knows : ∀ p ∈ s.procs, Knows s p.post p.pc

variable {s : State α}

theorem Inv.limited (h : Inv s) : Limited s := by
  refine ⟨h.daily, ?_, ?_⟩
  · intro ip t
    refine countP_le_one h.perIp ?_
    intro x y hxy hx hy
    simp only [decide_eq_true_eq] at hx hy
    have := hxy (hx.1.trans hy.1.symm)
    omega
  · intro value hvalue t
    refine countP_le_one h.perCookie ?_
    intro x y hxy hx hy
    simp only [decide_eq_true_eq] at hx hy
    have := hxy value (h.issued value hvalue) hx.1 hy.1
    omega

variable {r : Post} {pc : Pc α}

theorem Knows.of_not_busy (h : pc.busy = false) : Knows s r pc := by
  cases pc <;> trivial

theorem unix_mono {a b : ℤ} (h : a ≤ b) : unix a ≤ unix b := Int.ediv_le_ediv (by decide) h

theorem Knows.wait (h : Knows s r pc) (nanos : ℕ) :
    Knows { s with now := s.now + nanos } r pc := by
  have hlater : unix s.now ≤ unix (s.now + nanos) := unix_mono (by omega)
  have hday : unix s.now / 86400 ≤ unix (s.now + nanos) / 86400 := Int.ediv_le_ediv (by decide) hlater
  have hcleared : Cleared s r → Cleared { s with now := s.now + nanos } r := fun hc =>
    ⟨hc.logged, fun x hx hip => (hc.ip x hx hip).trans hlater,
      fun value hne hv x hx hxv => (hc.cookie value hne hv x hx hxv).trans hlater⟩
  cases pc with
  | validateAddress | readCutoff | done => trivial
  | countIp cutoff => exact ⟨h.1.trans hlater, h.2⟩
  | countCookie cutoff => exact ⟨h.1.trans hlater, h.2.1, fun x hx hip => (h.2.2 x hx hip).trans hlater⟩
  | getDailyClaimLimit => exact hcleared h
  | readToday dailyLimit => exact ⟨hcleared h.1, h.2⟩
  | getClaimsToday dailyLimit start =>
    obtain ⟨hc, hlimit, t, ht, hstart, hbefore⟩ := h
    exact ⟨hcleared hc, hlimit, t, ht.trans hlater, hstart, hbefore⟩
  | getFaucetAmount | sendToAddress =>
    obtain ⟨hc, limit, hlimit, hroom⟩ := h
    exact ⟨hcleared hc, limit, hlimit, fun day hd => hroom day (hday.trans hd)⟩
  | readTimestamp txid =>
    obtain ⟨earlier, x, hsends, hlogged, hip, hcookie, htime⟩ := h
    exact ⟨earlier, x, hsends, hlogged, hip, hcookie, htime.trans hlater⟩
  | logRequest txid timestamp => exact h

/-- What a handler knows is about the clock, the rows and the sends. -/
theorem Knows.of_procs (h : Knows s r pc) (procs : List (Proc α)) (issued : List Text) : Knows
    { s with procs := procs, issued := issued } r pc := by
  have hcleared : Cleared s r → Cleared { s with procs := procs, issued := issued } r := fun hc =>
    ⟨hc.logged, hc.ip, hc.cookie⟩
  cases pc with
  | getDailyClaimLimit => exact hcleared h
  | readToday dailyLimit => exact ⟨hcleared h.1, h.2⟩
  | getClaimsToday dailyLimit start => exact ⟨hcleared h.1, h.2⟩
  | getFaucetAmount | sendToAddress => exact ⟨hcleared h.1, h.2⟩
  | validateAddress | readCutoff | done | countIp | countCookie | readTimestamp | logRequest => exact h

theorem Logged.countP_le {requests : List Row} {sends : List (Send α)} (h : Logged requests sends) {p : Send α → Bool}
    {q : Row → Bool} (hpq : ∀ x row, Records x row → p x = true → q row = true) :
    sends.countP p ≤ requests.countP q := by
  obtain ⟨old, new, rfl, hrows⟩ := h
  rw [List.countP_append]
  exact (countP_le_of_forall₂ hrows hpq).trans (Nat.le_add_left _ _)

theorem Logged.quiet {requests : List Row} {sends : List (Send α)} (h : Logged requests sends) {p : Send α → Prop}
    [DecidablePred p] {q : Row → Prop} [DecidablePred q] (hpq : ∀ x row, Records x row → p x → q row) {cutoff : ℤ}
    (hnone : requests.countP (fun row => q row ∧ row.timestamp > cutoff) = 0) :
    ∀ x ∈ sends, p x → x.time ≤ cutoff := by
  have hle := h.countP_le (p := fun x => p x ∧ x.time > cutoff) (q := fun row => q row ∧ row.timestamp > cutoff) (by
    intro x row hrow hx
    simp only [decide_eq_true_eq] at hx ⊢
    exact ⟨hpq x row hrow hx.1, lt_of_lt_of_le hx.2 hrow.timestamp⟩)
  rw [hnone, Nat.le_zero, List.countP_eq_zero] at hle
  intro x hx hpx
  by_contra hlate
  exact hle x hx (by simpa using ⟨hpx, not_le.mp hlate⟩)

section
variable {s : State α} {i : ℕ} {p : Proc α} {pc : Pc α}

theorem forall_mem_set {procs : List (Proc α)} {P : Proc α → Prop} {new : Proc α} (hnew : P new)
    (hold : ∀ j q, j ≠ i → procs[j]? = some q → P q) : ∀ q ∈ procs.set i new, P q := by
  intro q hq
  obtain ⟨j, hj⟩ := List.getElem?_of_mem hq
  rw [List.getElem?_set] at hj
  split_ifs at hj with hij
  · exact Option.some.inj hj ▸ hnew
  · exact hold j q (Ne.symm hij) hj

theorem Inv.others (h : Inv s) (hp : s.procs[i]? = some p) (hbusy : p.pc.busy = true) :
    ∀ j q, j ≠ i → s.procs[j]? = some q → q.pc.busy = false := by
  intro j q hji hq
  by_contra hq'
  exact hji (h.alone j i q p hq hp (by simpa using hq') hbusy)

theorem Inv.alone_set (h : Inv s) (hp : s.procs[i]? = some p)
    (hbusy : pc.busy = true → p.pc.busy = true ∨ ∀ q ∈ s.procs, q.pc.busy = false) :
    ∀ (j k : ℕ) q r, (s.procs.set i ⟨p.post, pc⟩)[j]? = some q → (s.procs.set i ⟨p.post, pc⟩)[k]? = some r →
      q.pc.busy = true → r.pc.busy = true → j = k := by
  have hother : ∀ (j : ℕ) q, i ≠ j → s.procs[j]? = some q → q.pc.busy = true → pc.busy = false := by
    intro j q hij hq hqbusy
    by_contra hpc
    rcases hbusy (by simpa using hpc) with hpbusy | hnone
    · exact hij (h.alone i j p q hp hq hpbusy hqbusy)
    · rw [hnone q (List.mem_of_getElem? hq)] at hqbusy
      exact Bool.false_ne_true hqbusy
  intro j k q r hq hr hqbusy hrbusy
  rw [List.getElem?_set] at hq hr
  split_ifs at hq hr with hij hlt hik
  · omega
  · obtain rfl := Option.some.inj hq
    rw [hother k r hik hr hrbusy] at hqbusy
    exact absurd hqbusy Bool.false_ne_true
  · obtain rfl := Option.some.inj hr
    rw [hother j q hij hq hqbusy] at hrbusy
    exact absurd hrbusy Bool.false_ne_true
  · exact h.alone j k q r hq hr hqbusy hrbusy

theorem Inv.move (h : Inv s) (hp : s.procs[i]? = some p) {issued : List Text} (hissued : ∀ value ∈ issued, value ≠ [])
    (hbusy : pc.busy = true → p.pc.busy = true ∨ ∀ q ∈ s.procs, q.pc.busy = false)
    (hleave : p.pc.busy = true → pc.busy = false → Logged s.requests s.sends) (hknows : Knows s p.post pc) :
    Inv { s with issued := issued, procs := s.procs.set i ⟨p.post, pc⟩ } := by
  refine ⟨h.past, h.perIp, h.perCookie, h.daily, hissued, h.alone_set hp hbusy, ?_, ?_⟩
  · intro hnone
    have hi : i < s.procs.length := (List.getElem?_eq_some_iff.mp hp).1
    have hpc : pc.busy = false := hnone ⟨p.post, pc⟩ (List.mem_set hi _)
    cases hpbusy : p.pc.busy with
    | true => exact hleave hpbusy hpc
    | false =>
      refine h.idle fun q hq => ?_
      obtain ⟨j, hj⟩ := List.getElem?_of_mem hq
      by_cases hij : i = j
      · obtain rfl : p = q := Option.some.inj ((hij ▸ hp).symm.trans hj)
        exact hpbusy
      · exact hnone q (List.mem_of_getElem? (by rw [List.getElem?_set_ne hij, hj]))
  · exact forall_mem_set (P := fun q => Knows _ q.post q.pc) (hknows.of_procs _ _)
      fun j q _ hq => (h.knows q (List.mem_of_getElem? hq)).of_procs _ _

theorem Inv.knows_at (h : Inv s) (hp : s.procs[i]? = some p) {pc₀ : Pc α} (hpc : p.pc = pc₀) : Knows s p.post pc₀ :=
  hpc ▸ h.knows p (List.mem_of_getElem? hp)

theorem Inv.proceed (h : Inv s) (hp : s.procs[i]? = some p) {pc₀ : Pc α} (hpc : p.pc = pc₀) (hbusy : pc₀.busy = true)
    (hlogged : Logged s.requests s.sends) (hknows : Knows s p.post pc) :
    Inv { s with procs := s.procs.set i ⟨p.post, pc⟩ } :=
  h.move hp h.issued (fun _ => Or.inl (hpc ▸ hbusy)) (fun _ _ => hlogged) hknows

theorem Inv.send (h : Inv s) (hp : s.procs[i]? = some p) {faucetAmount : α} (hpc : p.pc = .sendToAddress faucetAmount)
    (txid : Text) :
    Inv { s with
      sends := s.sends ++ [⟨unix s.now, faucetAmount, p.post.address, p.post.ip, p.post.cookie⟩]
      procs := s.procs.set i ⟨p.post, .readTimestamp txid⟩ } := by
  have hbusy : p.pc.busy = true := by rw [hpc]; rfl
  obtain ⟨hcleared, limit, hlimit, hroom⟩ := h.knows_at hp hpc
  refine ⟨?_, ?_, ?_, ?_, h.issued, h.alone_set hp fun _ => Or.inl hbusy, ?_, ?_⟩
  · intro x hx
    rcases List.mem_append.mp hx with hx | hx
    · exact h.past x hx
    · rw [List.mem_singleton.mp hx]
  · refine List.pairwise_append.mpr ⟨h.perIp, List.pairwise_singleton _ _, ?_⟩
    intro x hx y hy hip
    rw [List.mem_singleton.mp hy] at hip ⊢
    exact hcleared.ip x hx hip
  · refine List.pairwise_append.mpr ⟨h.perCookie, List.pairwise_singleton _ _, ?_⟩
    intro x hx y hy value hne hxv hyv
    rw [List.mem_singleton.mp hy] at hyv ⊢
    exact hcleared.cookie value hne hyv x hx hxv
  · intro limit' hlimit' day
    obtain rfl : limit = limit' := Option.some.inj (hlimit.symm.trans hlimit')
    have hbefore := h.daily limit hlimit day
    rw [List.countP_append, List.countP_singleton]
    split_ifs with hday
    · have := hroom day (le_of_eq (by simpa using hday))
      omega
    · exact hbefore
  · intro hnone
    have hi : i < s.procs.length := (List.getElem?_eq_some_iff.mp hp).1
    have hpc' := hnone ⟨p.post, .readTimestamp txid⟩ (List.mem_set hi _)
    simp [Pc.busy] at hpc'
  · refine forall_mem_set (P := fun q => Knows _ q.post q.pc) ?_
      fun j q hji hq => Knows.of_not_busy (h.others hp hbusy j q hji hq)
    exact ⟨s.sends, _, rfl, hcleared.logged, rfl, rfl, le_refl _⟩

theorem Inv.log (h : Inv s) (hp : s.procs[i]? = some p) {txid : Text} {timestamp : ℤ}
    (hpc : p.pc = .logRequest txid timestamp) (status : ℕ) (body : String) :
    Inv { s with
      requests := s.requests ++ [⟨p.post.ip, p.post.ua, p.post.faucetID, p.post.address, timestamp⟩]
      procs := s.procs.set i ⟨p.post, .done status body⟩ } := by
  have hbusy : p.pc.busy = true := by rw [hpc]; rfl
  obtain ⟨earlier, x, hsends, ⟨old, new, hrows, hlogged⟩, hip, hcookie, htime⟩ := h.knows_at hp hpc
  refine ⟨h.past, h.perIp, h.perCookie, h.daily, h.issued, h.alone_set hp fun _ => Or.inl hbusy, fun _ => ?_, ?_⟩
  · refine ⟨old, new ++ [⟨p.post.ip, p.post.ua, p.post.faucetID, p.post.address, timestamp⟩], ?_, ?_⟩
    · rw [hrows, List.append_assoc]
    · change List.Forall₂ Records s.sends _
      rw [hsends]
      refine List.rel_append hlogged (.cons ⟨hip.symm, ?_, htime⟩ .nil)
      rw [hcookie]
      rfl
  · exact forall_mem_set (P := fun q => Knows _ q.post q.pc) trivial
      fun j q hji hq => Knows.of_not_busy (h.others hp hbusy j q hji hq)

theorem Cleared.hasRoom {r : Post} (h : Cleared s r) {dailyLimit t : ℤ} (hlimit : s.config.limit? = some dailyLimit)
    (ht : t ≤ unix s.now) (hbefore : ∀ x ∈ s.sends, x.time ≤ t)
    (hcount : (s.requests.countP fun row => row.timestamp ≥ startOfDay t : ℤ) < dailyLimit) : HasRoom s := by
  refine ⟨dailyLimit, hlimit, ?_⟩
  intro day hday
  have htoday : t / 86400 ≤ day := (Int.ediv_le_ediv (by decide) ht).trans hday
  rcases eq_or_lt_of_le htoday with rfl | hlater
  · refine lt_of_le_of_lt ?_ hcount
    refine Int.ofNat_le.mpr (h.logged.countP_le ?_)
    intro x row hrow hx
    have hafter := hrow.timestamp
    simp only [decide_eq_true_eq] at hx ⊢
    unfold startOfDay
    omega
  · -- nothing has been sent on a day that was not there yet
    have hnone : s.sends.countP (fun x => x.time / 86400 = day) = 0 := by
      rw [List.countP_eq_zero]
      intro x hx hxday
      have := hbefore x hx
      simp only [decide_eq_true_eq] at hxday
      omega
    rw [hnone]
    exact lt_of_le_of_lt (Int.natCast_nonneg _) hcount

theorem decimal_ne_nil (n : ℤ) : decimal n ≠ [] := by
  unfold Whippet.Indexer.decimal
  split_ifs
  · exact List.cons_ne_nil _ _
  · exact Nat.toDigits_ne_nil

theorem Inv.handle (parseFloat? : Text → Option α) (h : Inv s) (hp : s.procs[i]? = some p) (answer : Answer)
    (hallowed : Allowed s answer p.pc) :
    Inv { (handle parseFloat? s p.post answer p.pc).1 with
      procs := s.procs.set i ⟨p.post, (handle parseFloat? s p.post answer p.pc).2⟩ } := by
  cases hpc : p.pc with
  | validateAddress =>
    have hidle : p.pc.busy = false := by rw [hpc]; rfl
    unfold Faucet.handle
    dsimp only
    split_ifs
    · exact h.move hp h.issued (by simp [Pc.busy]) (by simp [hidle]) trivial
    · exact h.move hp h.issued (by simp [Pc.busy]) (by simp [hidle]) trivial
    · cases p.post.cookie with
      | some value => exact h.move hp h.issued (by simp [Pc.busy]) (by simp [hidle]) trivial
      | none =>
        refine h.move hp ?_ (by simp [Pc.busy]) (by simp [hidle]) trivial
        intro value hvalue
        rcases List.mem_append.mp hvalue with hold | hnew
        · exact h.issued value hold
        · rw [List.mem_singleton.mp hnew]
          exact decimal_ne_nil _
  | readCutoff =>
    rw [hpc] at hallowed
    have hnone : ∀ q ∈ s.procs, q.pc.busy = false := hallowed
    refine h.move hp h.issued (fun _ => Or.inr hnone) (by simp [Faucet.handle, Pc.busy]) ⟨?_, h.idle hnone⟩
    unfold unix
    omega
  | countIp cutoff =>
    obtain ⟨hcutoff, hlogged⟩ := h.knows_at hp hpc
    unfold Faucet.handle
    dsimp only
    split_ifs with hdeny hcookie
    · exact h.proceed hp hpc rfl hlogged trivial
    all_goals
      simp only [gt_iff_lt, not_or, not_lt, Nat.le_zero] at hdeny
      have hip : ∀ x ∈ s.sends, x.ip = p.post.ip → x.time + 86400 ≤ unix s.now := by
        intro x hx hxip
        have := hlogged.quiet (p := fun x => x.ip = p.post.ip) (q := fun row => row.ip = p.post.ip)
          (fun x row hrow hxip => hrow.ip.trans hxip) hdeny.2 x hx hxip
        omega
    · exact h.proceed hp hpc rfl hlogged ⟨hcutoff, hlogged, hip⟩
    · refine h.proceed hp hpc rfl hlogged ⟨hlogged, hip, ?_⟩
      intro value hne hvalue
      exact absurd (by rw [Post.faucetID, hvalue]; exact hne) hcookie
  | countCookie cutoff =>
    obtain ⟨hcutoff, hlogged, hip⟩ := h.knows_at hp hpc
    unfold Faucet.handle
    dsimp only
    split_ifs with hdeny
    · exact h.proceed hp hpc rfl hlogged trivial
    · simp only [gt_iff_lt, not_or, not_lt, Nat.le_zero] at hdeny
      refine h.proceed hp hpc rfl hlogged ⟨hlogged, hip, ?_⟩
      intro value hne hvalue x hx hxvalue
      have hid : p.post.faucetID = value := by rw [Post.faucetID, hvalue]; rfl
      rw [hid] at hdeny
      have := hlogged.quiet (p := fun x => x.cookie = some value) (q := fun row => row.cookie = value)
        (fun x row hrow hxvalue => by rw [hrow.cookie, hxvalue]; rfl) hdeny.2 x hx hxvalue
      omega
  | getDailyClaimLimit =>
    have hcleared : Cleared s p.post := h.knows_at hp hpc
    unfold Faucet.handle
    dsimp only
    split
    · exact h.proceed hp hpc rfl hcleared.logged trivial
    · next dailyLimit hlimit =>
      refine h.proceed hp hpc rfl hcleared.logged ⟨hcleared, ?_⟩
      split_ifs at hlimit
      exact hlimit
  | readToday dailyLimit =>
    obtain ⟨hcleared, hlimit⟩ := h.knows_at hp hpc
    exact h.proceed hp hpc rfl hcleared.logged ⟨hcleared, hlimit, unix s.now, le_refl _, rfl, h.past⟩
  | getClaimsToday dailyLimit start =>
    obtain ⟨hcleared, hlimit, t, ht, rfl, hbefore⟩ := h.knows_at hp hpc
    unfold Faucet.handle
    dsimp only
    split_ifs with hfail hfull
    · exact h.proceed hp hpc rfl hcleared.logged trivial
    · exact h.proceed hp hpc rfl hcleared.logged trivial
    · exact h.proceed hp hpc rfl hcleared.logged
        ⟨hcleared, hcleared.hasRoom hlimit ht hbefore (not_le.mp hfull)⟩
  | getFaucetAmount =>
    have hknows := h.knows_at hp hpc
    unfold Faucet.handle
    dsimp only
    split
    · exact h.proceed hp hpc rfl hknows.1.logged trivial
    · exact h.proceed hp hpc rfl hknows.1.logged hknows
  | sendToAddress faucetAmount =>
    have hknows := h.knows_at hp hpc
    unfold Faucet.handle
    dsimp only
    split_ifs
    · exact h.proceed hp hpc rfl hknows.1.logged trivial
    · exact h.send hp hpc answer.txid
  | readTimestamp txid =>
    have hknows := h.knows_at hp hpc
    exact h.move hp h.issued (fun _ => Or.inl (by rw [hpc]; rfl)) (by simp [Faucet.handle, Pc.busy]) hknows
  | logRequest txid timestamp =>
    rw [hpc] at hallowed
    have hok : answer.ok = true := hallowed
    unfold Faucet.handle
    simp only [hok, if_true]
    exact h.log hp hpc 200 _
  | done status body =>
    have hidle : p.pc.busy = false := by rw [hpc]; rfl
    exact h.move hp h.issued (by simp [Faucet.handle, Pc.busy]) (by simp [hidle]) trivial

theorem Inv.step (parseFloat? : Text → Option α) (h : Inv s) {e : Event} (he : Exclusive s e) :
    Inv (step parseFloat? s e) := by
  cases e with
  | wait nanos =>
    have hlater : unix s.now ≤ unix (s.now + nanos) := unix_mono (by omega)
    exact ⟨fun x hx => (h.past x hx).trans hlater, h.perIp, h.perCookie, h.daily, h.issued, h.alone, h.idle,
      fun p hp => (h.knows p hp).wait nanos⟩
  | post r =>
    have hold : ∀ (j : ℕ) q, (s.procs ++ [⟨r, .validateAddress⟩])[j]? = some q → q.pc.busy = true →
        s.procs[j]? = some q := by
      intro j q hq hbusy
      rw [List.getElem?_append] at hq
      split_ifs at hq with hj
      · exact hq
      · rw [List.mem_singleton.mp (List.mem_of_getElem? hq)] at hbusy
        simp [Pc.busy] at hbusy
    refine ⟨h.past, h.perIp, h.perCookie, h.daily, h.issued, ?_, ?_, ?_⟩
    · intro j k p q hp hq hpbusy hqbusy
      exact h.alone j k p q (hold j p hp hpbusy) (hold k q hq hqbusy) hpbusy hqbusy
    · exact fun hnone => h.idle fun q hq => hnone q (List.mem_append_left _ hq)
    · intro q hq
      rcases List.mem_append.mp hq with hq | hq
      · exact (h.knows q hq).of_procs _ _
      · rw [List.mem_singleton.mp hq]
        trivial
  | step i answer =>
    dsimp only [Faucet.step]
    cases hp : s.procs[i]? with
    | none => exact h
    | some p => exact h.handle parseFloat? hp answer (he p hp)

end

def sampleClaim (ip : Text) (cookie : Option Text) : Post := ⟨"WhippetAddress".toList, ip, "Mozilla".toList, cookie⟩

def sampleConfig (limit : Text) : Config := ⟨some "10.0".toList, some limit⟩

def sampleNoon : ℤ := 1700049600 * 10 ^ 9

def sampleSteps (n i : ℕ) : List Event := List.replicate n (.step i { txid := "ab".toList })

def sampleSerial : List Event :=
  .post (sampleClaim "1.2.3.4".toList none) :: .post (sampleClaim "5.6.7.8".toList none) :: sampleSteps 10 0 ++
    .wait 60000000000 :: sampleSteps 10 1

/-- The client gets its cookie, and two days later makes two claims at once. Both handlers make their checks before
either sends. -/
def sampleDouble : List Event :=
  .post (sampleClaim "1.2.3.4".toList none) :: sampleSteps 10 0 ++
    .wait 172800000000000 :: .post (sampleClaim "1.2.3.4".toList (some (decimal sampleNoon))) ::
    .post (sampleClaim "1.2.3.4".toList (some (decimal sampleNoon))) :: sampleSteps 8 1 ++ sampleSteps 8 2 ++
    sampleSteps 3 1 ++ sampleSteps 3 2

end Whippet.Faucet
