import Whippet.Indexer.Rpc
import Whippet.Lib.HostPort
import Whippet.Lib.IpText

/-! The address under which the indexer counts a client's requests. -/
namespace Whippet.Indexer
open Lib

/-- What a service reads of a request. A header that is absent is empty. -/
structure ClientRequest where
  remoteAddr : Text
  xForwardedFor : Text
  xRealIP : Text
  deriving DecidableEq, Repr

def isSpace (c : Char) : Bool :=
  c.toNat ∈ [0x20, 0x85, 0xa0, 0x1680, 0x2028, 0x2029, 0x202f, 0x205f, 0x3000] ∨ (0x09 ≤ c.toNat ∧ c.toNat ≤ 0x0d) ∨
    (0x2000 ≤ c.toNat ∧ c.toNat ≤ 0x200a)

def trimSpace (t : Text) : Text := strip isSpace t

def trimBrackets (t : Text) : Text := strip (fun c => c = '[' ∨ c = ']') t

/-- An address with or without a port, as the bare address. -/
def normalizeIP (addr : Text) : Option Text :=
  let addr := trimSpace addr
  if addr = [] then none else (Ip.parse? (trimBrackets (hostOf addr))).map Ip.text

def lastEntry (header : Text) : Text := (header.splitOn ',').getLastD []

def forwardedForIP (header : Text) : Option Text := if header = [] then none else normalizeIP (lastEntry header)

def clientIP (r : ClientRequest) (trustProxy : Bool) : Text :=
  let fromHeaders := if trustProxy then (forwardedForIP r.xForwardedFor).or (normalizeIP r.xRealIP) else none
  (fromHeaders.or (normalizeIP r.remoteAddr)).getD r.remoteAddr

section
variable {gs : List ℕ} {a t : Text}

theorem forwardedForIP_eq (header : Text) : forwardedForIP header = normalizeIP (lastEntry header) := by
  rw [forwardedForIP]
  split
  · rename_i hempty
    rw [hempty]
    rfl
  · rfl

theorem normalizeIP_trimSpace (a : Text) : normalizeIP (trimSpace a) = normalizeIP a := by
  rw [normalizeIP, normalizeIP, trimSpace, trimSpace, strip_strip]

theorem normalizeIP_spec (h : normalizeIP a = some t) : ∃ gs, Ip.Valid gs ∧ t = Ip.text gs := by
  rw [normalizeIP] at h
  split at h
  · cases h
  · obtain ⟨gs, hparse, rfl⟩ := Option.map_eq_some_iff.mp h
    exact ⟨gs, Ip.parse?_valid hparse, rfl⟩

theorem isSpace_of_hexValue? {c : Char} (h : (hexValue? c).isSome = true) : isSpace c = false := by
  have hbound : 0x30 ≤ c.toNat ∧ c.toNat ≤ 0x66 := by
    rw [hexValue?] at h
    simp only [Char.le_def, UInt32.le_iff_toNat_le] at h
    split_ifs at h with h₁ h₂ h₃
    · exact ⟨h₁.1, h₁.2.trans (by decide)⟩
    · exact ⟨le_trans (by decide) h₂.1, h₂.2⟩
    · exact ⟨le_trans (by decide) h₃.1, h₃.2.trans (by decide)⟩
    · cases h
  simp only [isSpace, List.mem_cons, List.not_mem_nil, or_false, decide_eq_false_iff_not]
  omega

theorem address_char {c : Char} (hc : c ∈ Ip.text gs) : isSpace c = false ∧ c ≠ '[' ∧ c ≠ ']' := by
  rcases Ip.mem_text hc with rfl | rfl | hhex
  · decide
  · decide
  · refine ⟨isSpace_of_hexValue? hhex, ?_, ?_⟩
    · rintro rfl
      cases hhex
    · rintro rfl
      cases hhex

theorem head_of_hostBefore? (h : hostBefore? a = some t) : a = t ∨ a.head? = some '[' := by
  rw [hostBefore?.eq_def] at h
  split at h
  · exact .inr rfl
  · split at h
    · cases h
    · exact .inl (Option.some.inj h)

theorem hostOf_trimSpace (h : hostOf a = Ip.text gs) (hgs : Ip.Valid gs) :
    trimSpace a ≠ [] ∧ hostOf (trimSpace a) = Ip.text gs := by
  rw [hostOf] at h
  cases hsplit : splitHostPort? a with
  | none =>
    rw [hsplit, Option.map_none, Option.getD_none] at h
    have htrim : trimSpace a = a := strip_eq_self fun c hc => (address_char (h ▸ hc)).1
    rw [htrim, hostOf, hsplit]
    exact ⟨h ▸ Ip.text_ne_nil hgs, h⟩
  | some parts =>
    obtain ⟨host, port⟩ := parts
    rw [hsplit, Option.map_some, Option.getD_some] at h
    change host = _ at h
    simp only [splitHostPort?, Option.bind_eq_bind, Option.bind_eq_some_iff, Prod.exists,
      Option.ite_none_left_eq_some, Option.map_eq_some_iff, not_or] at hsplit
    obtain ⟨before, port', hlast, ⟨hopen, hclose⟩, host', hhost, heq⟩ := hsplit
    cases heq
    obtain ⟨rfl, hcolon⟩ := splitLast_spec hlast
    have hhead : ∀ c ∈ before.head?, isSpace c = false := by
      intro c hc
      rcases head_of_hostBefore? hhost with rfl | hbracket
      · exact (address_char (h ▸ List.mem_of_mem_head? hc)).1
      · rw [hbracket, Option.mem_some] at hc
        rw [← hc]
        decide
    have htrim : trimSpace (before ++ ':' :: port) = before ++ ':' :: port.rdropWhile isSpace :=
      strip_append_cons hhead (by decide)
    have hsub := (List.rdropWhile_prefix isSpace port).subset
    rw [htrim, hostOf, splitHostPort?, splitLast_append before (fun hmem => hcolon (hsub hmem))]
    have hport : ¬ ('[' ∈ port.rdropWhile isSpace ∨ ']' ∈ port.rdropWhile isSpace) :=
      not_or.mpr ⟨fun hmem => hopen (hsub hmem), fun hmem => hclose (hsub hmem)⟩
    simp only [Option.bind_eq_bind, Option.bind_some, if_neg hport, hhost, Option.map_some, Option.getD_some]
    exact ⟨by simp, h⟩

theorem normalizeIP_of_hostOf (hgs : Ip.Valid gs) (h : hostOf a = Ip.text gs) : normalizeIP a = some (Ip.text gs) := by
  obtain ⟨hne, hhost⟩ := hostOf_trimSpace h hgs
  have hbrackets : trimBrackets (Ip.text gs) = Ip.text gs :=
    strip_eq_self fun c hc => by simpa using (address_char hc).2
  rw [normalizeIP]
  simp only [if_neg hne, hhost, hbrackets, Ip.parse?_text hgs, Option.map_some]

end

end Whippet.Indexer
