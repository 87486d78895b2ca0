import Whippet.Web.MintPlan

/-! The metadata record of a mint, from the script that the wallet builds to what the indexer reads from it, and which
scripts the indexer reads as the same record. -/
namespace Whippet.Ports
open Lib Script

def ScriptPush.bytes (p : ScriptPush) : Bytes :=
  p.opcode :: ((if p.opcode = 0x4c then leBytes 1 p.data.length
    else if p.opcode = 0x4d then leBytes 2 p.data.length
    else if p.opcode = 0x4e then leBytes 4 p.data.length
    else []) ++ p.data)

variable {script rest : Bytes} {p : ScriptPush}

theorem takePush?_eq_some {opcode : UInt8} {n : ℕ} (h : takePush? opcode n script = some (p, rest)) :
    p.opcode = opcode ∧ p.data.length = n ∧ script = p.data ++ rest := by
  unfold takePush? at h
  obtain ⟨hlen, heq⟩ := Option.ite_none_left_eq_some.mp h
  obtain ⟨rfl, rfl⟩ := Prod.mk.inj (Option.some.inj heq)
  exact ⟨rfl, by simp; omega, (List.take_append_drop n script).symm⟩

theorem readSized_eq_some {opcode : UInt8} {w : ℕ}
    (h : ((readLe? w script).bind fun r => takePush? opcode r.1 r.2) = some (p, rest)) :
    p.opcode = opcode ∧ script = leBytes w p.data.length ++ p.data ++ rest := by
  obtain ⟨⟨n, script'⟩, hread, htake⟩ := Option.bind_eq_some_iff.mp h
  obtain ⟨hop, hlen, hscript⟩ := takePush?_eq_some htake
  obtain ⟨-, rfl⟩ := readLe?_eq_some hread
  exact ⟨hop, by rw [hlen, List.append_assoc, ← hscript]⟩

theorem readPush?_bytes (h : readPush? script = some (p, rest)) :
    script = p.bytes ++ rest := by
  cases script with
  | nil => cases h
  | cons b script =>
    rw [readPush?] at h
    split_ifs at h with hdirect h1 h2 h4 h0
    · obtain ⟨rfl, -, rfl⟩ := takePush?_eq_some h
      have hne : ∀ c : UInt8, 0x4b < c → p.opcode ≠ c := by
        rintro c hc rfl
        exact absurd hdirect.2 (UInt8.not_le.mpr hc)
      simp [ScriptPush.bytes, hne]
    · obtain ⟨hop, rfl⟩ := readSized_eq_some h
      simp [ScriptPush.bytes, hop, h1]
    · obtain ⟨hop, rfl⟩ := readSized_eq_some h
      simp [ScriptPush.bytes, hop, h2]
    · obtain ⟨hop, rfl⟩ := readSized_eq_some h
      simp [ScriptPush.bytes, hop, h4]
    · obtain ⟨rfl, rfl⟩ := Prod.mk.inj (Option.some.inj h)
      simp [ScriptPush.bytes, h0]
    · obtain ⟨rfl, rfl⟩ := Prod.mk.inj (Option.some.inj h)
      simp [ScriptPush.bytes, h1, h2, h4]

theorem readPushes?_bytes {pushes : List ScriptPush} (h : readPushes? script = some pushes) :
    script = pushes.flatMap ScriptPush.bytes := by
  induction pushes generalizing script with
  | nil => simp [readPushes?_eq_nil.mp h]
  | cons p pushes ih =>
    obtain ⟨op, hop, hp, hrest⟩ := readPushes?_eq_cons.mp h
    have hread : readPush? script = some (p, op.rest) := by rw [readPush?_eq, hop, Option.map_some, hp]
    rw [readPush?_bytes hread, List.flatMap_cons, ← ih hrest]

theorem readPushes?_pushData {data : Bytes} (hlen : data.length < 2 ^ 32) (rest : Bytes) :
    readPushes? (pushData data ++ rest) = (readPushes? rest).map (⟨true, pushOpcode data.length, data⟩ :: ·) := by
  have hop : getOp? (pushData data ++ rest) = some ⟨pushOpcode data.length, data, rest⟩ :=
    getOp?_eq_some.mpr (getOp_pushData rest hlen)
  have hne : pushData data ++ rest ≠ [] := by
    intro hnil
    rw [hnil] at hop
    cases hop
  rw [readPushes?_ne_nil hne, hop, Option.bind_some]
  simp [pushOf, pushOpcode_le]

end Whippet.Ports

namespace Whippet.Web
open Lib Script Ports
open Indexer (Text TokenMetadata isTickerByte parseMetadata?)

def metadataMagic : Bytes := [0x57, 0x55, 0x41, 0x50]

def pushOpcodes (script : Bytes) : List UInt8 := ((readPushes? script.tail).getD []).map (·.opcode)

theorem parseMetadata?_eq_some {script : Bytes} {m : TokenMetadata} (h : parseMetadata? (hexEncode script) = some m) :
    ∃ o₁ o₂ o₃ o₄ ticker hash, script.head? = some 0x6a ∧
      readPushes? script.tail = some [⟨true, o₁, metadataMagic⟩, ⟨true, o₂, [0x02]⟩, ⟨true, o₃, ticker⟩, ⟨true, o₄, hash⟩] ∧
      m = ⟨ticker.map fun c => Char.ofNat c.toNat, hexEncode hash⟩ := by
  simp only [parseMetadata?, hexDecode?_hexEncode, Option.bind_eq_bind, Option.bind_some] at h
  obtain ⟨hhead, h⟩ := Option.ite_none_left_eq_some.mp h
  obtain ⟨pushes, hread, h⟩ := Option.bind_eq_some_iff.mp h
  split at h
  next magic version ticker hash =>
    simp only [Option.ite_none_left_eq_some, Option.some.injEq, not_or, not_not, Bool.not_eq_true', Bool.not_eq_false] at h
    obtain ⟨⟨hmagic, hwuap⟩, ⟨hversion, htwo⟩, ⟨hticker, -⟩, ⟨hhash, -⟩, rfl⟩ := h
    obtain ⟨_, o₁, _⟩ := magic
    obtain ⟨_, o₂, _⟩ := version
    obtain ⟨_, o₃, ticker⟩ := ticker
    obtain ⟨_, o₄, hash⟩ := hash
    dsimp only at hmagic hwuap hversion htwo hticker hhash
    subst hmagic hwuap hversion htwo hticker hhash
    refine ⟨o₁, o₂, o₃, o₄, ticker, hash, ?_, hread, rfl⟩
    cases script with
    | nil => simp at hhead
    | cons b script =>
      simp only [List.headD_cons, not_or, not_not] at hhead
      rw [hhead.2, List.head?_cons]
  next => cases h

theorem parseMetadata?_of_read {script ticker hash : Bytes} {o₁ o₂ o₃ o₄ : UInt8}
    (hread : readPushes? script = some [⟨true, o₁, metadataMagic⟩, ⟨true, o₂, [0x02]⟩, ⟨true, o₃, ticker⟩, ⟨true, o₄, hash⟩])
    (hmin : 1 ≤ ticker.length) (hmax : ticker.length ≤ 8) (hbytes : ticker.all isTickerByte = true)
    (hhash : hash.length = 0 ∨ hash.length = 32) :
    parseMetadata? (hexEncode (0x6a :: script)) = some ⟨ticker.map fun c => Char.ofNat c.toNat, hexEncode hash⟩ := by
  have hne : script ≠ [] := by
    rintro rfl
    cases hread
  have hlen : 0 < script.length := List.length_pos_iff.mpr hne
  have hraw : ¬ ((0x6a :: script).length < 2 ∨ (0x6a :: script).headD 0 ≠ 0x6a) := by simp; omega
  have hmagic : ¬ ((!true) = true ∨ metadataMagic ≠ [0x57, 0x55, 0x41, 0x50]) := by decide
  have hversion : ¬ ((!true) = true ∨ ([0x02] : Bytes) ≠ [0x02]) := by decide
  have hticker : ¬ ((!true) = true ∨ ticker.length < 1 ∨ ticker.length > 8 ∨ (!ticker.all isTickerByte) = true) := by
    rw [hbytes]
    rintro (h | h | h | h)
    · cases h
    · omega
    · omega
    · cases h
  have hhash' : ¬ ((!true) = true ∨ (hash.length ≠ 0 ∧ hash.length ≠ 32)) := by
    rintro (h | h)
    · cases h
    · omega
  simp only [parseMetadata?, hexDecode?_hexEncode, Option.bind_eq_bind, Option.bind_some, if_neg hraw, List.tail_cons, hread,
    if_neg hmagic, if_neg hversion, if_neg hticker, if_neg hhash']

theorem map_ofNat_injective : Function.Injective fun bytes : Bytes => bytes.map fun c => Char.ofNat c.toNat := by
  refine List.map_injective_iff.mpr fun a b h => ?_
  have hvalue : ∀ c : UInt8, (Char.ofNat c.toNat).toNat = c.toNat :=
    forall_uint8 (P := fun c => (Char.ofNat c.toNat).toNat = c.toNat) (by decide +kernel)
  have := congrArg Char.toNat h
  rw [hvalue, hvalue] at this
  exact UInt8.toNat_inj.mp this

theorem hexEncode_injective : Function.Injective hexEncode := by
  intro a b h
  have := congrArg hexDecode? h
  rwa [hexDecode?_hexEncode, hexDecode?_hexEncode, Option.some.injEq] at this

/-- Two scripts that are read as one record are the same script when they push its fields by the same opcodes. -/
theorem eq_iff_pushOpcodes {a b : Bytes} {m : TokenMetadata} (ha : parseMetadata? (hexEncode a) = some m)
    (hb : parseMetadata? (hexEncode b) = some m) : a = b ↔ pushOpcodes a = pushOpcodes b := by
  refine ⟨fun h => by rw [h], fun h => ?_⟩
  obtain ⟨o₁, o₂, o₃, o₄, ticker, hash, hheadA, hreadA, rfl⟩ := parseMetadata?_eq_some ha
  obtain ⟨p₁, p₂, p₃, p₄, ticker', hash', hheadB, hreadB, heq⟩ := parseMetadata?_eq_some hb
  obtain ⟨hticker, hhash⟩ := TokenMetadata.mk.inj heq
  obtain rfl := map_ofNat_injective hticker
  obtain rfl := hexEncode_injective hhash
  simp only [pushOpcodes, hreadA, hreadB, Option.getD_some, List.map_cons, List.map_nil, List.cons.injEq, and_true] at h
  obtain ⟨rfl, rfl, rfl, rfl⟩ := h
  have htail : a.tail = b.tail := (readPushes?_bytes hreadA).trans (readPushes?_bytes hreadB).symm
  obtain ⟨a, rfl⟩ := List.head?_eq_some_iff.mp hheadA
  obtain ⟨b, rfl⟩ := List.head?_eq_some_iff.mp hheadB
  rw [List.tail_cons, List.tail_cons] at htail
  rw [htail]

theorem utf8EncodeChar_ticker {c : Char} (h : isTickerChar c = true) :
    ∃ b, String.utf8EncodeChar c = [b] ∧ Char.ofNat b.toNat = c ∧ isTickerByte b = true := by
  have hlt : c.toNat < 91 := by
    simp only [isTickerChar, decide_eq_true_eq] at h
    omega
  have hascii : ∀ n < 91, isTickerChar (Char.ofNat n) = true → String.utf8EncodeChar (Char.ofNat n) = [UInt8.ofNat n] ∧
      Char.ofNat (UInt8.ofNat n).toNat = Char.ofNat n ∧ isTickerByte (UInt8.ofNat n) = true := by decide +kernel
  have := hascii c.toNat hlt
  rw [Char.ofNat_toNat] at this
  exact ⟨_, this h⟩

theorem textEncode_ticker {t : Text} (h : t.all isTickerChar = true) :
    (textEncode t).length = t.length ∧ ((textEncode t).map fun c => Char.ofNat c.toNat) = t ∧
      (textEncode t).all isTickerByte = true := by
  induction t with
  | nil => exact ⟨rfl, rfl, rfl⟩
  | cons c t ih =>
    rw [List.all_cons, Bool.and_eq_true] at h
    obtain ⟨b, hb, hc, hbyte⟩ := utf8EncodeChar_ticker h.1
    obtain ⟨hlen, hmap, hall⟩ := ih h.2
    have hcons : textEncode (c :: t) = b :: textEncode t := by
      rw [show textEncode (c :: t) = String.utf8EncodeChar c ++ textEncode t from rfl, hb, List.singleton_append]
    rw [hcons]
    refine ⟨by rw [List.length_cons, hlen, List.length_cons], ?_, ?_⟩
    · rw [List.map_cons, hc, hmap]
    · rw [List.all_cons, hbyte, hall, Bool.and_self]

theorem parseMetadata?_build {host : Host} {ticker upper : Text} {hash : Bytes}
    (h : normalizeTicker host ticker = .ok upper) (hhash : hash.length = 0 ∨ hash.length = 32) :
    ∃ script, buildMetadataScript host ticker hash = .ok script ∧
      parseMetadata? (hexEncode script) = some ⟨upper, hexEncode hash⟩ := by
  obtain ⟨hall, hmin, hmax⟩ := normalizeTicker_eq_ok h
  obtain ⟨hlen, hmap, hbytes⟩ := textEncode_ticker hall
  have hle := length_textEncode_le upper hall
  have hne : 1 ≤ (textEncode upper).length := by
    rcases upper with _ | ⟨c, t⟩
    · simp [utf16Length] at hmin
    · rw [hlen]
      simp
  refine ⟨[0x6a] ++ pushData metadataMagic ++ pushData [0x02] ++ pushData (textEncode upper) ++ pushData hash, ?_, ?_⟩
  · have hsize : ¬ ([0x6a] ++ pushData metadataMagic ++ pushData [0x02] ++ pushData (textEncode upper) ++
        pushData hash).length > 83 := by
      have hshort : ∀ data : Bytes, data.length ≤ 32 → (pushData data).length ≤ data.length + 1 := by
        intro data hdata
        rw [pushData, pushHeader, if_pos (by rw [toNat_opPushData1]; omega)]
        simp
      have h₁ := hshort (textEncode upper) (by omega)
      have h₂ := hshort hash (by omega)
      simp only [List.length_append, List.length_singleton, show (pushData metadataMagic).length = 5 from rfl,
        show (pushData [0x02]).length = 2 from rfl]
      omega
    simp only [buildMetadataScript, bind_eq_ok, failIf_eq_ok, pure_eq_ok]
    exact ⟨upper, h, ⟨⟩, by omega, _, UapJs.pushData_eq (by decide), _, UapJs.pushData_eq (by decide), _,
      UapJs.pushData_eq (by omega), _, UapJs.pushData_eq (by omega), ⟨⟩, hsize, rfl⟩
  · have hread : readPushes? (pushData metadataMagic ++ (pushData [0x02] ++ (pushData (textEncode upper) ++
        (pushData hash ++ [])))) = some [⟨true, 4, metadataMagic⟩, ⟨true, 1, [0x02]⟩,
          ⟨true, pushOpcode (textEncode upper).length, textEncode upper⟩, ⟨true, pushOpcode hash.length, hash⟩] := by
      rw [readPushes?_pushData (by decide), readPushes?_pushData (by decide), readPushes?_pushData (by omega),
        readPushes?_pushData (by omega), readPushes?_nil]
      rfl
    rw [List.append_nil] at hread
    have hparse := parseMetadata?_of_read hread hne (by omega) hbytes hhash
    rw [hmap] at hparse
    simpa only [List.append_assoc, List.cons_append, List.nil_append] using hparse

namespace MetadataSample

def record : Bytes := [0x6a, 4, 0x57, 0x55, 0x41, 0x50, 1, 2, 1, 0x41, 0]

def padded : Bytes := [0x6a, 4, 0x57, 0x55, 0x41, 0x50, 1, 2, 1, 0x41, 0x4c, 0]

end MetadataSample

open MetadataSample

end Whippet.Web
