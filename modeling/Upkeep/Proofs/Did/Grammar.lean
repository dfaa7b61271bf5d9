import Mathlib.Tactic.Tauto
import Upkeep.Did

/-!
The grammar of identifiers. A text is split at its first colon after the scheme and its parts are
looked at one after the other; since a method has no colon, what is found is the one way to spell the
text as an identifier, whatever colons recur in the part that is specific to the method.
-/

namespace Upkeep.Did

/-- A text that is an identifier by its parts. -/
structure Spelled (s method id : String) : Prop where
  text_eq : s = "did:" ++ method ++ ":" ++ id
  method_nonempty : method ≠ ""
  method_char : ∀ c ∈ method.toList, c.isLower ∨ c.isDigit
  id_nonempty : id ≠ ""
  id_char : ∀ c ∈ id.toList, c.isAlphanum ∨ c ∈ ['.', '_', ':', '%', '-']
  id_end : ∀ c ∈ id.toList.getLast?, c ≠ ':' ∧ c ≠ '%'

/-! The characters of the parts. -/

theorem isMethodChar_iff {c : Char} : isMethodChar c = true ↔ c.isLower ∨ c.isDigit := by
  change (c.isLower || c.isDigit) = true ↔ _
  rw [Bool.or_eq_true]

theorem isIdChar_iff {c : Char} :
    isIdChar c = true ↔ c.isAlphanum ∨ c ∈ ['.', '_', ':', '%', '-'] := by
  have halphanum : c.isAlphanum = (c.isUpper || c.isLower || c.isDigit) := rfl
  have hlower : ('a' ≤ c && c ≤ 'z') = c.isLower := rfl
  have hupper : ('A' ≤ c && c ≤ 'Z') = c.isUpper := (Bool.decide_and ('A' ≤ c) (c ≤ 'Z')).symm
  have hdigit : ('0' ≤ c && c ≤ '9') = c.isDigit := rfl
  simp only [isIdChar, halphanum, hlower, hupper, hdigit, Bool.or_eq_true, beq_iff_eq,
    List.mem_cons, List.not_mem_nil, or_false]
  tauto

theorem isIdChar_of_isMethodChar {c : Char} (h : isMethodChar c = true) : isIdChar c = true := by
  simp only [isMethodChar, Bool.or_eq_true] at h
  simp only [isIdChar, Bool.or_eq_true]
  tauto

theorem endsBadly_eq_false_iff {id : List Char} :
    endsBadly id = false ↔ id ≠ [] ∧ ∀ c ∈ id.getLast?, c ≠ ':' ∧ c ≠ '%' := by
  cases h : id.getLast? with
  | none => simp [endsBadly, List.getLast?_eq_none_iff.mp h]
  | some c =>
      have hid : id ≠ [] := by
        rintro rfl
        cases h
      simp [endsBadly, h, hid]

/-! The places where a text is split. -/

theorem splitColon_eq_some {cs method id : List Char} (h : splitColon cs = some (method, id)) :
    cs = method ++ ':' :: id := by
  induction cs generalizing method with
  | nil => cases h
  | cons c cs ih =>
      rw [splitColon] at h
      split at h
      next hc =>
        cases h
        rw [hc]
        rfl
      next =>
        obtain ⟨⟨method', id'⟩, hsplit, heq⟩ := Option.map_eq_some_iff.mp h
        cases heq
        rw [ih hsplit]
        rfl

theorem splitColon_append {method : List Char} (h : ∀ c ∈ method, c ≠ ':') (id : List Char) :
    splitColon (method ++ ':' :: id) = some (method, id) := by
  induction method with
  | nil => rfl
  | cons c method ih =>
      rw [List.cons_append, splitColon, if_neg (h c List.mem_cons_self),
        ih fun c' hc' => h c' (List.mem_cons_of_mem c hc')]
      rfl

theorem dropScheme_eq_some {cs rest : List Char} (h : dropScheme cs = some rest) :
    cs = 'd' :: 'i' :: 'd' :: ':' :: rest := by
  unfold dropScheme at h
  split at h
  next => rw [Option.some.inj h]
  next => cases h

namespace Spelled

variable {s method id : String} (h : Spelled s method id)

include h

theorem toList_eq : s.toList = 'd' :: 'i' :: 'd' :: ':' :: (method.toList ++ ':' :: id.toList) := by
  rw [h.text_eq]
  simp

theorem ne_colon : ∀ c ∈ method.toList, c ≠ ':' := by
  rintro c hc rfl
  exact absurd (h.method_char _ hc) (by decide)

/-- The parts are found where the text is split. -/
theorem split : (dropScheme s.toList).bind splitColon = some (method.toList, id.toList) := by
  rw [h.toList_eq]
  exact splitColon_append h.ne_colon _

theorem unique {method' id' : String} (h' : Spelled s method' id') : method = method' ∧ id = id' := by
  have heq := Option.some.inj (h.split.symm.trans h'.split)
  exact ⟨String.toList_inj.mp (congrArg Prod.fst heq), String.toList_inj.mp (congrArg Prod.snd heq)⟩

theorem isIdChar_of_mem : ∀ c ∈ s.toList, isIdChar c = true := by
  rw [h.toList_eq]
  intro c hc
  simp only [List.mem_cons, List.mem_append] at hc
  rcases hc with rfl | rfl | rfl | rfl | hc | rfl | hc
  · decide
  · decide
  · decide
  · decide
  · exact isIdChar_of_isMethodChar (isMethodChar_iff.mpr (h.method_char c hc))
  · decide
  · exact isIdChar_iff.mpr (h.id_char c hc)

end Spelled

/-- Parts that pass every check spell the text they are split from. -/
theorem spelled_of_split {s : String} {rest method id : List Char}
    (hscheme : dropScheme s.toList = some rest) (hsplit : splitColon rest = some (method, id))
    (hmethod : method ≠ [] ∧ ∀ c ∈ method, isMethodChar c = true) (hend : endsBadly id = false)
    (hid : ∀ c ∈ id, isIdChar c = true) :
    Spelled s (String.ofList method) (String.ofList id) := by
  obtain ⟨hne, hlast⟩ := endsBadly_eq_false_iff.mp hend
  refine ⟨?_, ?_, fun c hc => ?_, ?_, fun c hc => ?_, ?_⟩
  · rw [← String.toList_inj, dropScheme_eq_some hscheme, splitColon_eq_some hsplit]
    simp
  · exact fun h => hmethod.1 (by rw [← String.toList_ofList (l := method), h]; rfl)
  · rw [String.toList_ofList] at hc
    exact isMethodChar_iff.mp (hmethod.2 c hc)
  · exact fun h => hne (by rw [← String.toList_ofList (l := id), h]; rfl)
  · rw [String.toList_ofList] at hc
    exact isIdChar_iff.mp (hid c hc)
  · rwa [String.toList_ofList]

theorem spelled_of_fault?_eq_none {s : String} (h : fault? s = none) :
    (Utf8.encode s).length ≤ maxOctets ∧ ∃ method id, Spelled s method id := by
  unfold fault? at h
  dsimp only at h
  split at h
  next => cases h
  next hlength =>
    refine ⟨Nat.not_lt.mp hlength, ?_⟩
    split at h
    next => cases h
    next rest hscheme =>
      split at h
      next => cases h
      next method id hsplit =>
        split at h
        next => cases h
        next hmethod =>
          split at h
          next => cases h
          next hend =>
            split at h
            next => cases h
            next hid =>
              simp only [Bool.or_eq_true, Bool.not_eq_true', not_or, Bool.not_eq_false,
                Bool.not_eq_true, List.isEmpty_eq_false_iff, List.all_eq_true] at hmethod hend hid
              exact ⟨_, _, spelled_of_split hscheme hsplit hmethod hend hid⟩

theorem Spelled.fault?_eq_none {s method id : String} (h : Spelled s method id)
    (hlength : (Utf8.encode s).length ≤ maxOctets) : fault? s = none := by
  have hmethod : ¬ (method.toList.isEmpty || !method.toList.all isMethodChar) = true := by
    simp only [Bool.or_eq_true, Bool.not_eq_true', not_or, Bool.not_eq_false, Bool.not_eq_true,
      List.isEmpty_eq_false_iff, List.all_eq_true]
    exact ⟨fun hnil => h.method_nonempty (String.toList_inj.mp hnil),
      fun c hc => isMethodChar_iff.mpr (h.method_char c hc)⟩
  have hend : endsBadly id.toList = false :=
    endsBadly_eq_false_iff.mpr ⟨fun hnil => h.id_nonempty (String.toList_inj.mp hnil), h.id_end⟩
  have hid : id.toList.all isIdChar = true :=
    List.all_eq_true.mpr fun c hc => isIdChar_iff.mpr (h.id_char c hc)
  have hscheme : dropScheme s.toList = some (method.toList ++ ':' :: id.toList) := by
    rw [h.toList_eq]
    rfl
  unfold fault?
  simp only [if_neg (Nat.not_lt.mpr hlength), hscheme, splitColon_append h.ne_colon, if_neg hmethod,
    hend, hid]
  rfl

/-- Nothing is wrong with a text exactly if it is spelled as an identifier and not too long. -/
theorem fault?_eq_none_iff {s : String} :
    fault? s = none ↔ (Utf8.encode s).length ≤ maxOctets ∧ ∃ method id, Spelled s method id :=
  ⟨spelled_of_fault?_eq_none, fun ⟨hlength, _, _, h⟩ => h.fault?_eq_none hlength⟩

/-! Parsing. -/

theorem eq_of_text_eq {d d' : Did} (h : d.text = d'.text) : d = d' := by
  obtain ⟨text, hwell⟩ := d
  obtain rfl : text = d'.text := h
  rfl

theorem parse_text (d : Did) : parse d.text = .ok d := by
  unfold parse
  split
  next h => rfl
  next f h => rw [d.wellFormed] at h; cases h

theorem parse_eq_ok_iff {s : String} {d : Did} : parse s = .ok d ↔ s = d.text := by
  constructor
  · intro h
    unfold parse at h
    split at h
    next =>
      cases h
      rfl
    next => cases h
  · rintro rfl
    exact d.parse_text

theorem toOption_parse {s : String} {d : Did} : (parse s).toOption = some d ↔ s = d.text := by
  rw [← parse_eq_ok_iff]
  cases parse s <;> simp [Except.toOption]

theorem exists_parse_iff {s : String} : (∃ d, parse s = .ok d) ↔ fault? s = none := by
  constructor
  · rintro ⟨d, h⟩
    rw [parse_eq_ok_iff.mp h]
    exact d.wellFormed
  · intro h
    exact ⟨⟨s, h⟩, parse_eq_ok_iff.mpr rfl⟩

theorem exists_spelled (d : Did) : ∃ method id, Spelled d.text method id :=
  (fault?_eq_none_iff.mp d.wellFormed).2

theorem method_eq {d : Did} {method id : String} (h : Spelled d.text method id) :
    d.method = method := by
  rw [Did.method, h.split]
  exact String.ofList_toList

theorem isIdChar_of_mem (d : Did) : ∀ c ∈ d.text.toList, isIdChar c = true := by
  obtain ⟨method, id, h⟩ := d.exists_spelled
  exact h.isIdChar_of_mem

end Upkeep.Did
