import Mathlib
import AttachedState.OperationName

/-!
Operation names.  Names are compared byte by byte, and say what they would say if they were compared
character by character: the bytes of a name are the bytes of another one and more only if the name is
the other one and more.
-/

namespace AttachedState.OperationName

variable {f g n s t : String}

/-! Bytes. -/

theorem bytes_append (s t : String) : bytes (s ++ t) = bytes s ++ bytes t := by
  simp [bytes]

theorem bytes_inj : bytes s = bytes t ↔ s = t := by
  unfold bytes
  rw [Array.toList_inj, ← ByteArray.ext_iff, String.toUTF8_eq_toByteArray, String.toUTF8_eq_toByteArray,
    String.toByteArray_inj]

theorem bytes_dot : bytes "." = [dot] := by decide

-- A character is never cut in two: the bytes that follow those of a prefix are those of a name.
theorem exists_of_isPrefix (before : bytes s <+: bytes t) : ∃ rest, t = s ++ rest := by
  obtain ⟨more, whole⟩ := before
  have encoded : s.toList.utf8Encode ++ more.toByteArray = t.toList.utf8Encode := by
    rw [String.utf8Encode_toList, String.utf8Encode_toList]
    apply ByteArray.ext
    rw [ByteArray.data_append]
    apply Array.toList_inj.mp
    simpa [bytes] using whole
  obtain ⟨rest, same⟩ := List.isPrefix_of_utf8Encode_append_eq_utf8Encode _ encoded
  refine ⟨String.ofList rest, String.toList_inj.mp ?_⟩
  rw [String.toList_append, String.toList_ofList, same]

-- Where the bytes of a prefix end, a character ends.
theorem isValid_of_isPrefix (before : bytes s <+: bytes t) :
    (⟨(bytes s).length⟩ : String.Pos.Raw).IsValid t := by
  obtain ⟨rest, rfl⟩ := exists_of_isPrefix before
  exact String.Pos.Raw.isValid_iff_exists_append.mpr ⟨s, rest, rfl, rfl⟩

/-! Declarations. -/

theorem declares_iff : declares f n = true ↔ f = n := by
  unfold declares
  rw [beq_iff_eq, bytes_inj]

theorem overloads_iff : overloads f n = true ↔ ∃ s, f = n ++ "." ++ s := by
  unfold overloads
  rw [Bool.and_eq_true, Bool.and_eq_true, decide_eq_true_eq, List.isPrefixOf_iff_prefix, beq_iff_eq]
  constructor
  · rintro ⟨⟨_, before⟩, next⟩
    obtain ⟨rest, rfl⟩ := exists_of_isPrefix before
    rw [bytes_append, List.getElem?_append_right (Nat.le_refl _), Nat.sub_self] at next
    have dotted : bytes "." <+: bytes rest := by
      obtain ⟨more, same⟩ := List.head?_eq_some_iff.mp (List.head?_eq_getElem?.trans next)
      exact ⟨more, by rw [same, bytes_dot]; rfl⟩
    obtain ⟨s, rfl⟩ := exists_of_isPrefix dotted
    exact ⟨s, (String.append_assoc ..).symm⟩
  · rintro ⟨s, rfl⟩
    have all : bytes (n ++ "." ++ s) = bytes n ++ dot :: bytes s := by
      rw [bytes_append, bytes_append, bytes_dot, List.append_assoc]
      rfl
    rw [all]
    refine ⟨⟨?_, List.prefix_append _ _⟩, ?_⟩
    · rw [List.length_append, List.length_cons]
      omega
    · rw [List.getElem?_append_right (Nat.le_refl _), Nat.sub_self]
      rfl

-- The names that are overloaded are those that end where a dot follows.
theorem overloads_iff_take : overloads f n = true ↔
    ∃ i, f.toList[i]? = some '.' ∧ n = String.ofList (f.toList.take i) := by
  rw [overloads_iff]
  constructor
  · rintro ⟨s, rfl⟩
    have all : (n ++ "." ++ s).toList = n.toList ++ '.' :: s.toList := by
      rw [String.toList_append, String.toList_append, List.append_assoc]
      rfl
    refine ⟨n.toList.length, ?_, ?_⟩
    · rw [all, List.getElem?_append_right (Nat.le_refl _), Nat.sub_self]
      rfl
    · rw [all, List.take_left, String.ofList_toList]
  · rintro ⟨i, here, rfl⟩
    obtain ⟨inside, is⟩ := List.getElem?_eq_some_iff.mp here
    have all : f.toList = f.toList.take i ++ '.' :: f.toList.drop (i + 1) := by
      rw [← is, List.getElem_cons_drop, List.take_append_drop]
    refine ⟨String.ofList (f.toList.drop (i + 1)), String.toList_inj.mp ?_⟩
    simp only [String.toList_append, String.toList_ofList, List.append_assoc]
    exact all

-- What is recognised of a function and a name.
structure Recognised (f n : String) : Prop where
  overload : overloads f n = true ↔ ∃ s, f = n ++ "." ++ s
  -- The byte after the name is looked at only where there is one, and never inside a character.
  inside : (bytes n).length < (bytes f).length → (bytes n).isPrefixOf (bytes f) = true →
    (∃ byte, (bytes f)[(bytes n).length]? = some byte) ∧
      (⟨(bytes n).length⟩ : String.Pos.Raw).IsValid f
  declared : declares f n = true ↔ f = n
  apart : ¬(declares f n = true ∧ overloads f n = true)
  irreflexive : overloads n n = false
  transitive : ∀ g, overloads f g = true → overloads g n = true → overloads f n = true
  bases : overloads f n = true ↔ ∃ i, f.toList[i]? = some '.' ∧ n = String.ofList (f.toList.take i)
  called : calls (some f) n = declares f n ∧ callsOverload (some f) n = overloads f n
  indirect : calls none n = false ∧ callsOverload none n = false

theorem operations_recognised (f n : String) : Recognised f n := by
  have irreflexive : overloads n n = false := by
    unfold overloads
    rw [decide_eq_false (Nat.lt_irrefl _)]
    rfl
  refine ⟨overloads_iff, fun longer before => ?_, declares_iff, ?_, irreflexive, ?_, overloads_iff_take,
    ⟨rfl, rfl⟩, ⟨rfl, rfl⟩⟩
  · exact ⟨⟨_, List.getElem?_eq_getElem longer⟩,
      isValid_of_isPrefix (List.isPrefixOf_iff_prefix.mp before)⟩
  · rintro ⟨declared, overload⟩
    rw [declares_iff.mp declared, irreflexive] at overload
    cases overload
  · intro g outer inner
    obtain ⟨s, rfl⟩ := overloads_iff.mp outer
    obtain ⟨t, rfl⟩ := overloads_iff.mp inner
    refine overloads_iff.mpr ⟨t ++ "." ++ s, ?_⟩
    simp only [String.append_assoc]

example : overloads "xd.read." "xd.read" = true ∧ overloads "xd.read" "xd" = true ∧
    overloads "xd.readx" "xd.read" = false := by decide

end AttachedState.OperationName
