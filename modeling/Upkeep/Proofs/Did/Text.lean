import Mathlib.Logic.Function.Basic
import Upkeep.Markers
import Upkeep.Proofs.Session.Record
import Upkeep.Proofs.Text.Order
import Upkeep.Session.Rows

/-!
Identifiers as texts. Parsing, reading from JSON and writing are about one set of texts, and a key made
by putting something before an identifier tells identifiers apart and leaves them in order.
-/

namespace Upkeep.Did

open Utf8

/-- The identifier that a JSON text holds, as a string and with nothing after it. -/
def ofJson (bs : Bytes) : Except Json.Error Did := do
  let (d, r) ← Record.readDid bs
  Json.atEnd r
  return d

theorem readDid_eq_ok_iff {bs r : Bytes} {d : Did} :
    Record.readDid bs = .ok (d, r) ↔ Json.readText bs = .ok (d.text, r) := by
  unfold Record.readDid
  constructor
  · intro h
    obtain ⟨⟨s, r'⟩, hread, h⟩ := Json.exists_ok_of_bind h
    dsimp only at h
    split at h
    next hparse =>
      cases h
      rw [hread, parse_eq_ok_iff.mp hparse]
    next => cases h
  · intro h
    simp only [h, bind, Except.bind, parse_text]
    rfl

theorem ofJson_eq_ok_iff {bs : Bytes} {d : Did} :
    ofJson bs = .ok d ↔ Json.ofBytes bs = .ok (.text d.text) := by
  rw [Json.ofBytes_eq_text_iff]
  constructor
  · intro h
    obtain ⟨⟨d', r⟩, hread, h⟩ := Json.exists_ok_of_bind h
    obtain ⟨⟨⟩, hend, h⟩ := Json.exists_ok_of_bind h
    cases h
    exact ⟨r, readDid_eq_ok_iff.mp hread, hend⟩
  · rintro ⟨r, hread, hend⟩
    unfold ofJson
    simp only [readDid_eq_ok_iff.mpr hread, bind, Except.bind, hend]
    rfl

/-! The written form. -/

private theorem toNat_of_isIdChar {c : Char} (h : isIdChar c = true) :
    0x25 ≤ c.toNat ∧ c.toNat ≠ 0x5c := by
  simp only [isIdChar, Bool.or_eq_true, Bool.and_eq_true, decide_eq_true_eq, beq_iff_eq,
    Char.le_def, UInt32.le_iff_toNat_le] at h
  have hnat : c.toNat = c.val.toNat := rfl
  have hlower : 'a'.val.toNat = 0x61 := rfl
  have hupper : 'A'.val.toNat = 0x41 ∧ 'Z'.val.toNat = 0x5a := ⟨rfl, rfl⟩
  have hdigit : '0'.val.toNat = 0x30 ∧ '9'.val.toNat = 0x39 := ⟨rfl, rfl⟩
  rcases h with ((((((((h | h) | h) | rfl) | rfl) | rfl) | rfl) | rfl))
  · omega
  · omega
  · omega
  all_goals decide

/-- Nothing in an identifier is escaped. -/
theorem quote_text (d : Did) : Json.quote d.text = "\x22" ++ d.text ++ "\x22" := by
  have hescape : ∀ c ∈ d.text.toList, Json.escape c = [c] := fun c hc => by
    obtain ⟨hlow, hbackslash⟩ := toNat_of_isIdChar (d.isIdChar_of_mem c hc)
    exact Json.escape_of_plain (by omega) hbackslash (by omega)
  have hplain : d.text.toList.flatMap Json.escape = d.text.toList := by
    rw [List.flatMap_congr hescape, List.flatMap_singleton']
  rw [← String.toList_inj, Json.quote, String.toList_ofList, Json.stringChars, hplain]
  simp

theorem ofJson_quote (d : Did) : ofJson (encode (Json.quote d.text)) = .ok d := by
  refine ofJson_eq_ok_iff.mpr (Json.ofBytes_eq_text_iff.mpr ⟨[], ?_, rfl⟩)
  have hread := Json.readText_chars d.text []
  rwa [Json.chars, List.append_nil, ← encode_ofList] at hread

/-! Keys. -/

structure KeysInOrder (key : Did → String) : Prop where
  injective : Function.Injective key
  lt_iff : ∀ d d' : Did, encode (key d) < encode (key d') ↔ encode d.text < encode d'.text

theorem keysInOrder_append (start : String) : KeysInOrder fun d => start ++ d.text where
  injective d d' h := by
    rw [← String.toList_inj, String.toList_append, String.toList_append,
      List.append_cancel_left_eq] at h
    exact eq_of_text_eq (String.toList_inj.mp h)
  lt_iff d d' := by
    rw [encode_lt_iff, encode_lt_iff, append_lt_append_iff]

/-- Parsing takes the texts that are spelled as identifiers, of up to 2048 octets, and finds the one
way they are spelled. JSON gives an identifier exactly when it gives such a text, an identifier is
written as its text, and the keys of rows and of the markers of any namespace keep identifiers apart
and in order. -/
theorem parse_exact :
    (∀ s : String,
      ((∃ d, parse s = .ok d) ↔ (encode s).length ≤ 2048 ∧ ∃ method id, Spelled s method id) ∧
        ∀ d, parse s = .ok d → d.text = s ∧ ∃ id, Spelled s d.method id ∧
          ∀ method' id', Spelled s method' id' → method' = d.method ∧ id' = id) ∧
      (∀ (bs : Bytes) (d : Did),
        ofJson bs = .ok d ↔ ∃ s, Json.ofBytes bs = .ok (.text s) ∧ parse s = .ok d) ∧
      (∀ d : Did, Json.quote d.text = "\x22" ++ d.text ++ "\x22" ∧
        ofJson (encode (Json.quote d.text)) = .ok d) ∧
      (∀ d, Rows.key d = "session:" ++ d.text) ∧ KeysInOrder Rows.key ∧
      ∀ m : Markers, (∀ d, m.key d = m.space ++ ":" ++ d.text) ∧ KeysInOrder m.key := by
  refine ⟨fun s => ⟨exists_parse_iff.trans fault?_eq_none_iff, fun d h => ?_⟩, fun bs d => ?_,
    fun d => ⟨d.quote_text, d.ofJson_quote⟩, fun _ => rfl, keysInOrder_append Rows.start,
    fun m => ⟨fun _ => rfl, keysInOrder_append m.start⟩⟩
  · obtain rfl := parse_eq_ok_iff.mp h
    obtain ⟨method, id, hspelled⟩ := d.exists_spelled
    obtain rfl := method_eq hspelled
    exact ⟨rfl, id, hspelled, fun _ _ h' => h'.unique hspelled⟩
  · rw [ofJson_eq_ok_iff]
    constructor
    · exact fun h => ⟨d.text, h, d.parse_text⟩
    · rintro ⟨s, hbs, hs⟩
      rwa [parse_eq_ok_iff.mp hs] at hbs

/-- With colons in the part that is specific to the method. -/
theorem parse_exact_nested : ∃ d, parse "did:example:a:b%3A:c" = .ok d ∧ d.method = "example" ∧
    ofJson (encode " \x22did:example:a:\\u0062%3A:c\x22\n") = .ok d := by
  have hspelled : Spelled "did:example:a:b%3A:c" "example" "a:b%3A:c" := by
    constructor <;> simp
  obtain ⟨hparse, hjson, -⟩ := parse_exact
  obtain ⟨haccept, hparts⟩ := hparse "did:example:a:b%3A:c"
  obtain ⟨d, hd⟩ := haccept.mpr ⟨by decide, _, _, hspelled⟩
  obtain ⟨-, id, -, hunique⟩ := hparts d hd
  exact ⟨d, hd, (hunique _ _ hspelled).1.symm, (hjson _ d).mpr ⟨_, rfl, hd⟩⟩

end Upkeep.Did
