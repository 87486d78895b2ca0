import Mathlib.Data.List.TakeWhile
import Mathlib.Tactic.IntervalCases
import Whippet.Lib.Digits
import Whippet.Lib.Hex

/-! Texts of IP addresses, as the Go standard library reads and writes them. An address is its eight groups of sixteen
bits; one of version 4 has the prefix `::ffff:0:0/96`. -/
namespace Whippet.Lib

def readDigits? (b : ℕ) (t : List Char) : Option ℕ :=
  t.foldlM (fun n c => ((hexValue? c).filter (· < b)).map (b * n + ·)) 0

namespace Ip

/-- A field of the dotted form. It has no leading zero. -/
def parseOctet? (t : List Char) : Option ℕ :=
  if t = [] ∨ (1 < t.length ∧ t.head? = some '0') then none else (readDigits? 10 t).filter (· ≤ 255)

def parseIPv4? (t : List Char) : Option (List ℕ) :=
  match (t.splitOn '.').mapM parseOctet? with
  | some [a, b, c, d] => some [256 * a + b, 256 * c + d]
  | _ => none

def parseGroup? (t : List Char) : Option ℕ := if t = [] ∨ 4 < t.length then none else readDigits? 16 t

/-- The groups up to the end of the text, where two of them can be dotted. -/
def parseGroups? : List (List Char) → Option (List ℕ)
  | [] => some []
  | [t] => if '.' ∈ t then parseIPv4? t else (parseGroup? t).map ([·])
  | t :: ts => do
    let g ← parseGroup? t
    let gs ← parseGroups? ts
    some (g :: gs)

def splitEllipsis : List Char → Option (List Char × List Char)
  | ':' :: ':' :: t => some ([], t)
  | c :: t => (splitEllipsis t).map fun (l, r) => (c :: l, r)
  | [] => none

def fields (t : List Char) : List (List Char) := if t = [] then [] else t.splitOn ':'

def parseIPv6? (t : List Char) : Option (List ℕ) :=
  match splitEllipsis t with
  | none => (parseGroups? (fields t)).filter fun gs => gs.length = 8
  | some (l, r) => do
    let left ← (fields l).mapM parseGroup?
    let right ← parseGroups? (fields r)
    -- the ellipsis stands for one group or more
    if left.length + right.length < 8 then
      some (left ++ List.replicate (8 - left.length - right.length) 0 ++ right)
    else none

/-- `net.ParseIP`. A zone, which it refuses, has a character that no address has. -/
def parse? (t : List Char) : Option (List ℕ) :=
  if ':' ∈ t then parseIPv6? t else (parseIPv4? t).map ([0, 0, 0, 0, 0, 0xffff] ++ ·)

def zerosFrom (gs : List ℕ) (i : ℕ) : ℕ := ((gs.drop i).takeWhile (· = 0)).length

/-- The first of the longest runs of zero groups, its start and its length. One group is no run. -/
def zeroRun (gs : List ℕ) : ℕ × ℕ :=
  (List.range 8).foldl (fun best i => if 2 ≤ zerosFrom gs i ∧ best.2 < zerosFrom gs i then (i, zerosFrom gs i) else best)
    (0, 0)

def join (sep : Char) (ts : List (List Char)) : List Char := [sep].intercalate ts

def hexGroups (gs : List ℕ) : List Char := join ':' (gs.map (Nat.toDigits 16))

def text6 (gs : List ℕ) : List Char :=
  let (start, n) := zeroRun gs
  if n = 0 then hexGroups gs else hexGroups (gs.take start) ++ [':', ':'] ++ hexGroups (gs.drop (start + n))

def text4 (hi lo : ℕ) : List Char := join '.' ([hi / 256, hi % 256, lo / 256, lo % 256].map (Nat.toDigits 10))

def text : List ℕ → List Char
  | [0, 0, 0, 0, 0, 0xffff, hi, lo] => text4 hi lo
  | gs => text6 gs

/-- The groups of an address. -/
structure Valid (gs : List ℕ) : Prop where
  length : gs.length = 8
  lt : ∀ g ∈ gs, g < 65536

section
variable {b n : ℕ} {gs : List ℕ} {c : Char}

theorem hexValue?_digitChar (h : n < 16) : hexValue? n.digitChar = some n := by
  interval_cases n <;> decide

theorem readDigits?_toDigits (hb : 1 < b) (hb' : b ≤ 16) (n : ℕ) : readDigits? b (Nat.toDigits b n) = some n := by
  have hdigit : ∀ d < b, (hexValue? d.digitChar).filter (· < b) = some d := by
    intro d hd
    rw [hexValue?_digitChar (by omega), Option.filter_some, if_pos (decide_eq_true hd)]
  induction n using Nat.strongRecOn with
  | ind n ih =>
    by_cases hlt : n < b
    · rw [Nat.toDigits_of_lt_base hlt, readDigits?, List.foldlM_cons, hdigit n hlt]
      simp
    · have hle : b ≤ n := not_lt.mp hlt
      have hhead := ih (n / b) (Nat.div_lt_self (by omega) hb)
      rw [readDigits?] at hhead ⊢
      rw [Nat.toDigits_of_base_le hb hle, List.foldlM_append, hhead, Option.bind_eq_bind, Option.bind_some,
        List.foldlM_cons, hdigit _ (Nat.mod_lt n (by omega))]
      simp [Nat.div_add_mod]

theorem hexValue?_of_mem_toDigits (hb : 1 < b) (hb' : b ≤ 16) (hc : c ∈ Nat.toDigits b n) : (hexValue? c).isSome = true := by
  induction n using Nat.strongRecOn with
  | ind n ih =>
    by_cases hlt : n < b
    · rw [Nat.toDigits_of_lt_base hlt, List.mem_singleton] at hc
      rw [hc, hexValue?_digitChar (by omega)]
      rfl
    · rw [Nat.toDigits_of_base_le hb (not_lt.mp hlt), List.mem_append, List.mem_singleton] at hc
      rcases hc with hc | rfl
      · exact ih (n / b) (Nat.div_lt_self (by omega) hb) hc
      · rw [hexValue?_digitChar (lt_of_lt_of_le (Nat.mod_lt n (by omega)) hb')]
        rfl

theorem parseOctet?_toDigits (h : n ≤ 255) : parseOctet? (Nat.toDigits 10 n) = some n := by
  have hzero : ¬ (Nat.toDigits 10 n = [] ∨ (1 < (Nat.toDigits 10 n).length ∧ (Nat.toDigits 10 n).head? = some '0')) := by
    rintro (hnil | ⟨hlong, hhead⟩)
    · exact Nat.toDigits_ne_nil hnil
    · rw [toDigits_head hhead] at hlong
      exact absurd hlong (by decide)
  rw [parseOctet?, if_neg hzero, readDigits?_toDigits (by decide) (by decide), Option.filter_some,
    if_pos (decide_eq_true h)]

theorem parseGroup?_toDigits (h : n < 65536) : parseGroup? (Nat.toDigits 16 n) = some n := by
  have hlength : (Nat.toDigits 16 n).length ≤ 4 := (Nat.length_toDigits_le_iff (by decide) (by decide)).mpr h
  rw [parseGroup?, if_neg (not_or.mpr ⟨Nat.toDigits_ne_nil, by omega⟩), readDigits?_toDigits (by decide) (by decide)]

theorem mapM_parseGroup? (h : ∀ g ∈ gs, g < 65536) : (gs.map (Nat.toDigits 16)).mapM parseGroup? = some gs := by
  induction gs with
  | nil => rfl
  | cons g gs ih =>
    obtain ⟨hg, hrest⟩ := List.forall_mem_cons.mp h
    rw [List.map_cons, List.mapM_cons, parseGroup?_toDigits hg, ih hrest]
    rfl

variable {sep : Char}

theorem notMem_toDigits (hb : 1 < b) (hb' : b ≤ 16) (hsep : (hexValue? sep).isSome = false) (n : ℕ) :
    sep ∉ Nat.toDigits b n := by
  intro hmem
  rw [hexValue?_of_mem_toDigits hb hb' hmem] at hsep
  cases hsep

theorem parseGroups?_toDigits (h : ∀ g ∈ gs, g < 65536) : parseGroups? (gs.map (Nat.toDigits 16)) = some gs := by
  induction gs with
  | nil => rfl
  | cons g gs ih =>
    obtain ⟨hg, hrest⟩ := List.forall_mem_cons.mp h
    cases gs with
    | nil =>
      have hdot : '.' ∉ Nat.toDigits 16 g := notMem_toDigits (by decide) (by decide) (by decide) g
      rw [List.map_cons, List.map_nil, parseGroups?, if_neg hdot, parseGroup?_toDigits hg, Option.map_some]
    | cons g' gs =>
      have ih := ih hrest
      rw [List.map_cons] at ih ⊢
      rw [List.map_cons, parseGroups?, parseGroup?_toDigits hg, ih]
      · rfl
      · exact nofun

theorem splitOn_join (hsep : (hexValue? sep).isSome = false) (hb : 1 < b) (hb' : b ≤ 16) (hgs : gs ≠ []) :
    (join sep (gs.map (Nat.toDigits b))).splitOn sep = gs.map (Nat.toDigits b) := by
  refine List.splitOn_intercalate sep ?_ (by simpa using hgs)
  intro t ht
  obtain ⟨g, -, rfl⟩ := List.mem_map.mp ht
  exact notMem_toDigits hb hb' hsep g

variable {t : List Char}

theorem splitEllipsis_append {rest : List Char} (h : ':' ∉ t) :
    splitEllipsis (t ++ rest) = (splitEllipsis rest).map fun (l, r) => (t ++ l, r) := by
  induction t with
  | nil => simp
  | cons c t ih =>
    rw [List.mem_cons, not_or] at h
    have hstep : ∀ t, splitEllipsis (c :: t) = (splitEllipsis t).map fun (l, r) => (c :: l, r) := by
      intro t
      rw [splitEllipsis]
      intro t' heq
      exact absurd heq.symm h.1
    rw [List.cons_append, hstep, ih h.2, Option.map_map]
    rfl

theorem hexGroups_singleton (g : ℕ) : hexGroups [g] = Nat.toDigits 16 g := by
  simp [hexGroups, join]

theorem hexGroups_cons (g : ℕ) (hgs : gs ≠ []) : hexGroups (g :: gs) = Nat.toDigits 16 g ++ ':' :: hexGroups gs := by
  obtain ⟨g', gs, rfl⟩ := List.exists_cons_of_ne_nil hgs
  simp [hexGroups, join]

theorem colon_notMem (g : ℕ) : ':' ∉ Nat.toDigits 16 g := notMem_toDigits (by decide) (by decide) (by decide) g

theorem hexGroups_ne_nil (hgs : gs ≠ []) : hexGroups gs ≠ [] := by
  obtain ⟨g, gs, rfl⟩ := List.exists_cons_of_ne_nil hgs
  by_cases hnil : gs = []
  · rw [hnil, hexGroups_singleton]
    exact Nat.toDigits_ne_nil
  · rw [hexGroups_cons g hnil]
    simp

theorem head_hexGroups (hgs : gs ≠ []) : ∃ c t, hexGroups gs = c :: t ∧ c ≠ ':' := by
  obtain ⟨g, gs, rfl⟩ := List.exists_cons_of_ne_nil hgs
  obtain ⟨c, t, hdigits⟩ := List.exists_cons_of_ne_nil (Nat.toDigits_ne_nil (b := 16) (n := g))
  have hc : c ≠ ':' := by
    rintro rfl
    exact colon_notMem g (hdigits ▸ List.mem_cons_self)
  by_cases hnil : gs = []
  · exact ⟨c, t, by rw [hnil, hexGroups_singleton, hdigits], hc⟩
  · exact ⟨c, t ++ ':' :: hexGroups gs, by rw [hexGroups_cons g hnil, hdigits, List.cons_append], hc⟩

theorem splitEllipsis_hexGroups (gs : List ℕ) (rest : List Char) :
    splitEllipsis (hexGroups gs ++ rest) = (splitEllipsis rest).map fun (l, r) => (hexGroups gs ++ l, r) := by
  induction gs with
  | nil => simp [hexGroups, join]
  | cons g gs ih =>
    by_cases hnil : gs = []
    · rw [hnil, hexGroups_singleton, splitEllipsis_append (colon_notMem g)]
    · obtain ⟨c, t, hhead, hne⟩ := head_hexGroups hnil
      have hstep : splitEllipsis (':' :: (hexGroups gs ++ rest)) =
          (splitEllipsis (hexGroups gs ++ rest)).map fun (l, r) => (':' :: l, r) := by
        rw [hhead, List.cons_append, splitEllipsis]
        intro t' _ heq
        exact absurd (List.cons.inj heq).1 hne
      rw [hexGroups_cons g hnil, List.append_assoc, List.cons_append, splitEllipsis_append (colon_notMem g), hstep, ih]
      simp [Option.map_map, Function.comp_def]

theorem fields_hexGroups (gs : List ℕ) : fields (hexGroups gs) = gs.map (Nat.toDigits 16) := by
  by_cases hnil : gs = []
  · rw [hnil]
    rfl
  · rw [fields, if_neg (hexGroups_ne_nil hnil), hexGroups, splitOn_join (by decide) (by decide) (by decide) hnil]

theorem zeroRun_spec (gs : List ℕ) :
    (zeroRun gs).2 = 0 ∨ (zeroRun gs).2 = zerosFrom gs (zeroRun gs).1 := by
  refine List.foldlRecOn (motive := fun best : ℕ × ℕ => best.2 = 0 ∨ best.2 = zerosFrom gs best.1) _ _ (.inl rfl) ?_
  intro best h i _
  split
  · exact .inr rfl
  · exact h

theorem take_zeros_drop (gs : List ℕ) (i : ℕ) :
    gs = gs.take i ++ List.replicate (zerosFrom gs i) 0 ++ gs.drop (i + zerosFrom gs i) := by
  have hzeros : (gs.drop i).takeWhile (· = 0) = List.replicate (zerosFrom gs i) 0 := by
    rw [List.eq_replicate_iff]
    refine ⟨rfl, fun g hg => ?_⟩
    simpa using List.mem_takeWhile_imp hg
  have hrest : gs.drop (i + zerosFrom gs i) = (gs.drop i).dropWhile (· = 0) := by
    rw [← List.drop_drop, zerosFrom]
    nth_rewrite 2 [← List.takeWhile_append_dropWhile (p := (· = 0)) (l := gs.drop i)]
    rw [List.drop_left]
  rw [hrest, ← hzeros, List.append_assoc, List.takeWhile_append_dropWhile, List.take_append_drop]

theorem mem_join (hb : 1 < b) (hb' : b ≤ 16) (hc : c ∈ join sep (gs.map (Nat.toDigits b))) :
    c = sep ∨ (hexValue? c).isSome = true := by
  induction gs with
  | nil => exact absurd hc (List.not_mem_nil)
  | cons g gs ih =>
    by_cases hnil : gs = []
    · have hone : join sep ([g].map (Nat.toDigits b)) = Nat.toDigits b g := by simp [join]
      rw [hnil, hone] at hc
      exact .inr (hexValue?_of_mem_toDigits hb hb' hc)
    · have hmore : join sep ((g :: gs).map (Nat.toDigits b)) =
          Nat.toDigits b g ++ sep :: join sep (gs.map (Nat.toDigits b)) := by
        obtain ⟨g', gs, rfl⟩ := List.exists_cons_of_ne_nil hnil
        simp [join]
      rw [hmore, List.mem_append, List.mem_cons] at hc
      rcases hc with hc | rfl | hc
      · exact .inr (hexValue?_of_mem_toDigits hb hb' hc)
      · exact .inl rfl
      · exact ih hc

theorem text_cases (gs : List ℕ) :
    (∃ hi lo, gs = [0, 0, 0, 0, 0, 0xffff, hi, lo] ∧ text gs = text4 hi lo) ∨ text gs = hexGroups gs ∨
      ∃ left n right, n ≠ 0 ∧ gs = left ++ List.replicate n 0 ++ right ∧
        text gs = hexGroups left ++ ':' :: ':' :: hexGroups right := by
  unfold text
  split
  · exact .inl ⟨_, _, rfl, rfl⟩
  · right
    have hspec := zeroRun_spec gs
    rw [text6]
    rcases hrun : zeroRun gs with ⟨start, n⟩
    rw [hrun] at hspec
    by_cases hn : n = 0
    · exact .inl (if_pos hn)
    · refine .inr ⟨gs.take start, n, gs.drop (start + n), hn, ?_, ?_⟩
      · rw [show n = zerosFrom gs start from hspec.resolve_left hn]
        exact take_zeros_drop gs start
      · simp [hn]

theorem parseIPv4?_text4 {hi lo : ℕ} (hhi : hi < 65536) (hlo : lo < 65536) : parseIPv4? (text4 hi lo) = some [hi, lo] := by
  rw [parseIPv4?, text4, splitOn_join (by decide) (by decide) (by decide) (by simp)]
  simp only [List.map_cons, List.map_nil, List.mapM_cons, List.mapM_nil, parseOctet?_toDigits (n := hi / 256) (by omega),
    parseOctet?_toDigits (n := hi % 256) (by omega), parseOctet?_toDigits (n := lo / 256) (by omega),
    parseOctet?_toDigits (n := lo % 256) (by omega), Option.bind_eq_bind, Option.bind_some, Option.pure_def]
  rw [Nat.div_add_mod, Nat.div_add_mod]

theorem parse?_text (h : Valid gs) : parse? (text gs) = some gs := by
  rcases text_cases gs with ⟨hi, lo, rfl, htext⟩ | htext | ⟨left, n, right, hn, hgs, htext⟩
  · have hcolon : ':' ∉ text4 hi lo := fun hmem =>
      (mem_join (by decide) (by decide) hmem).elim (by decide) (by decide)
    rw [parse?, htext, if_neg hcolon, parseIPv4?_text4 (h.lt hi (by simp)) (h.lt lo (by simp))]
    rfl
  · have hcolon : ':' ∈ hexGroups gs := by
      obtain ⟨g, gs, rfl⟩ := List.exists_cons_of_length_pos (Nat.lt_of_lt_of_eq (by decide : 0 < 8) h.length.symm)
      have hrest : gs ≠ [] := by
        rintro rfl
        exact absurd h.length (by simp)
      rw [hexGroups_cons g hrest]
      simp
    have hsplit := splitEllipsis_hexGroups gs []
    rw [List.append_nil, splitEllipsis, Option.map_none] at hsplit
    rw [parse?, htext, if_pos hcolon, parseIPv6?, hsplit, fields_hexGroups, parseGroups?_toDigits h.lt]
    simp [h.length]
  · have hcolon : ':' ∈ hexGroups left ++ ':' :: ':' :: hexGroups right := by simp
    have hleft : ∀ g ∈ left, g < 65536 := fun g hg => h.lt g (by rw [hgs]; simp [hg])
    have hright : ∀ g ∈ right, g < 65536 := fun g hg => h.lt g (by rw [hgs]; simp [hg])
    have hlength : left.length + n + right.length = 8 := by
      have hlength := h.length
      rw [hgs] at hlength
      simpa [Nat.add_assoc] using hlength
    have hrun : 8 - left.length - right.length = n := by omega
    rw [parse?, htext, if_pos hcolon, parseIPv6?, splitEllipsis_hexGroups, splitEllipsis]
    simp only [Option.map_some, List.append_nil]
    rw [fields_hexGroups, fields_hexGroups, mapM_parseGroup? hleft, parseGroups?_toDigits hright]
    simp only [Option.bind_eq_bind, Option.bind_some]
    rw [if_pos (by omega), hrun, hgs]

theorem mem_hexGroups (hc : c ∈ hexGroups gs) : c = ':' ∨ (hexValue? c).isSome = true :=
  mem_join (by decide) (by decide) hc

theorem mem_text (hc : c ∈ text gs) : c = '.' ∨ c = ':' ∨ (hexValue? c).isSome = true := by
  rcases text_cases gs with ⟨hi, lo, rfl, htext⟩ | htext | ⟨left, n, right, -, -, htext⟩
  · rw [htext, text4] at hc
    exact (mem_join (by decide) (by decide) hc).imp_right .inr
  · rw [htext] at hc
    exact .inr (mem_hexGroups hc)
  · rw [htext, List.mem_append, List.mem_cons, List.mem_cons] at hc
    rcases hc with hc | hc | hc | hc
    · exact .inr (mem_hexGroups hc)
    · exact .inr (.inl hc)
    · exact .inr (.inl hc)
    · exact .inr (mem_hexGroups hc)

theorem text_ne_nil (h : Valid gs) : text gs ≠ [] := by
  intro hnil
  have hparse := parse?_text h
  rw [hnil, parse?, if_neg List.not_mem_nil] at hparse
  exact absurd hparse nofun

/-! What is read is an address. -/

theorem readDigits?_lt (h : readDigits? b t = some n) : n < b ^ t.length := by
  have hfold : ∀ (t : List Char) (m n : ℕ),
      t.foldlM (fun n c => ((hexValue? c).filter (· < b)).map (b * n + ·)) m = some n → n < b ^ t.length * (m + 1) := by
    intro t
    induction t with
    | nil =>
      intro m n h
      cases h
      simp
    | cons c t ih =>
      intro m n h
      rw [List.foldlM_cons] at h
      simp only [Option.bind_eq_bind, Option.bind_eq_some_iff, Option.map_eq_some_iff, Option.filter_eq_some_iff] at h
      obtain ⟨m', ⟨d, ⟨-, hd⟩, rfl⟩, h⟩ := h
      have hd : d < b := of_decide_eq_true hd
      calc n < b ^ t.length * (b * m + d + 1) := ih _ _ h
        _ ≤ b ^ t.length * (b * (m + 1)) := Nat.mul_le_mul_left _ (by rw [Nat.mul_add]; omega)
        _ = b ^ (c :: t).length * (m + 1) := by rw [List.length_cons, Nat.pow_succ, Nat.mul_assoc]
  simpa using hfold t 0 n h

theorem parseGroup?_lt (h : parseGroup? t = some n) : n < 65536 := by
  rw [parseGroup?] at h
  split at h
  · cases h
  · rename_i ht
    rw [not_or, not_lt] at ht
    calc n < 16 ^ t.length := readDigits?_lt h
      _ ≤ 16 ^ 4 := Nat.pow_le_pow_right (by decide) ht.2

theorem parseOctet?_le (h : parseOctet? t = some n) : n ≤ 255 := by
  rw [parseOctet?] at h
  split at h
  · cases h
  · exact of_decide_eq_true (Option.filter_eq_some_iff.mp h).2

theorem mapM_all {p : ℕ → Prop} {parse : List Char → Option ℕ} (hparse : ∀ t n, parse t = some n → p n)
    {ts : List (List Char)} (h : ts.mapM parse = some gs) : ∀ g ∈ gs, p g := by
  induction ts generalizing gs with
  | nil =>
    cases h
    exact nofun
  | cons t ts ih =>
    rw [List.mapM_cons] at h
    simp only [Option.bind_eq_bind, Option.bind_eq_some_iff, Option.pure_def, Option.some.injEq] at h
    obtain ⟨n, hn, gs, hgs, rfl⟩ := h
    exact List.forall_mem_cons.mpr ⟨hparse t n hn, ih hgs⟩

theorem parseIPv4?_lt (h : parseIPv4? t = some gs) : gs.length = 2 ∧ ∀ g ∈ gs, g < 65536 := by
  rw [parseIPv4?] at h
  split at h
  · rename_i a b c d hoctets
    cases h
    have hle := mapM_all (p := (· ≤ 255)) (fun _ _ => parseOctet?_le) hoctets
    simp only [List.forall_mem_cons] at hle ⊢
    exact ⟨rfl, by omega, by omega, nofun⟩
  · cases h

theorem parseGroups?_lt {ts : List (List Char)} (h : parseGroups? ts = some gs) : ∀ g ∈ gs, g < 65536 := by
  induction ts using parseGroups?.induct generalizing gs with
  | case1 =>
    cases h
    exact nofun
  | case2 t hdot =>
    rw [parseGroups?, if_pos hdot] at h
    exact (parseIPv4?_lt h).2
  | case3 t hdot =>
    rw [parseGroups?, if_neg hdot] at h
    obtain ⟨n, hn, rfl⟩ := Option.map_eq_some_iff.mp h
    exact List.forall_mem_singleton.mpr (parseGroup?_lt hn)
  | case4 t ts hts ih =>
    rw [parseGroups?] at h
    · simp only [Option.bind_eq_bind, Option.bind_eq_some_iff, Option.some.injEq] at h
      obtain ⟨n, hn, gs, hgs, rfl⟩ := h
      exact List.forall_mem_cons.mpr ⟨parseGroup?_lt hn, ih hgs⟩
    · exact hts

theorem parseIPv6?_valid (h : parseIPv6? t = some gs) : Valid gs := by
  rw [parseIPv6?] at h
  split at h
  · obtain ⟨hgs, hlength⟩ := Option.filter_eq_some_iff.mp h
    exact ⟨of_decide_eq_true hlength, parseGroups?_lt hgs⟩
  · simp only [Option.bind_eq_bind, Option.bind_eq_some_iff] at h
    obtain ⟨left, hleft, right, hright, h⟩ := h
    split at h
    · cases h
      refine ⟨by simp; omega, ?_⟩
      simp only [List.forall_mem_append]
      refine ⟨⟨mapM_all (fun _ _ => parseGroup?_lt) hleft, fun g hg => ?_⟩, parseGroups?_lt hright⟩
      rw [List.eq_of_mem_replicate hg]
      decide
    · cases h

theorem parse?_valid (h : parse? t = some gs) : Valid gs := by
  rw [parse?] at h
  split at h
  · exact parseIPv6?_valid h
  · obtain ⟨low, hlow, rfl⟩ := Option.map_eq_some_iff.mp h
    obtain ⟨hlength, hlt⟩ := parseIPv4?_lt hlow
    refine ⟨by simp [hlength], ?_⟩
    rw [List.forall_mem_append]
    exact ⟨by decide, hlt⟩

end

end Ip
end Whippet.Lib
