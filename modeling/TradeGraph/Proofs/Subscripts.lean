import Mathlib.Data.List.Infix
import TradeGraph.Proofs.Tokens

/-!
# Elements of arrays in tokens

Which elements of arrays a text reads is said in terms of its tokens: a name, and a numeral between
brackets. No element arises where two texts meet that neither begin with a bracket nor end with an
opening one.
-/

namespace TradeGraph.Mql

open List

/-- The tokens of an element of an array. -/
def element (x : String) (k : Nat) : List Token :=
  [.name x, .mark '[', .name (toString k), .mark ']']

theorem eq_of_numeral_eq {n m : Nat} (h : toString n = toString m) : n = m := by
  have hdigits : Nat.toDigits 10 n = Nat.toDigits 10 m := by
    rw [← Nat.toList_repr, ← Nat.toList_repr, ← Nat.toString_eq_repr, ← Nat.toString_eq_repr, h]
  have hread := congrArg (fun ds => Nat.ofDigitChars 10 ds 0) hdigits
  simpa only [Nat.ofDigitChars_ten_toDigits] using hread

/-- A part of two lists lies in one of them, or its one end in the first and its other end in the
second. -/
theorem infix_append_cases {α : Type} {l as bs : List α} (h : l <:+: as ++ bs) :
    l <:+: as ∨ l <:+: bs ∨ ∃ u v, u ≠ [] ∧ v ≠ [] ∧ l = u ++ v ∧ u <:+ as ∧ v <+: bs := by
  obtain ⟨s, t, hst⟩ := h
  rcases append_eq_append_iff.mp hst with ⟨m, rfl, -⟩ | ⟨m, hm, rfl⟩
  · exact .inl ⟨s, m, rfl⟩
  rcases append_eq_append_iff.mp hm with ⟨u, rfl, rfl⟩ | ⟨v, rfl, rfl⟩
  · by_cases hu : u = []
    · subst hu
      exact .inr (.inl ⟨[], t, rfl⟩)
    by_cases hv : m = []
    · subst hv
      exact .inl ⟨s, [], by simp⟩
    exact .inr (.inr ⟨u, m, hu, hv, rfl, ⟨s, rfl⟩, ⟨t, rfl⟩⟩)
  · exact .inr (.inl ⟨v, t, rfl⟩)

/-- Tokens that read only elements of the set. They neither begin with a bracket nor end with an
opening one, so no element arises where two such sequences meet. -/
structure Shows (S : String → Nat → Prop) (ts : List Token) : Prop where
  elements : ∀ x k, element x k <:+: ts → S x k
  first : ∀ t ∈ ts.head?, t.isBracket = false
  last : ∀ t ∈ ts.getLast?, t ≠ .mark '['

namespace Shows

variable {S : String → Nat → Prop}

theorem of_no_bracket {ts : List Token} (h : ∀ t ∈ ts, t.isBracket = false) : Shows S ts where
  elements x k hx := by
    have hopen := h (.mark '[') (hx.subset (by simp [element]))
    cases hopen
  first t ht := h t (mem_of_mem_head? ht)
  last t ht := by
    rintro rfl
    have hopen := h _ (mem_of_mem_getLast? ht)
    cases hopen

/-- No element is cut in two: its later part begins with a bracket, or its first part ends with an
opening one. -/
theorem element_cut {x : String} {k : Nat} {u v : List Token} (hu : u ≠ []) (hv : v ≠ [])
    (h : element x k = u ++ v) :
    (∃ t ∈ v.head?, t.isBracket = true) ∨ .mark '[' ∈ u.getLast? := by
  match u, h with
  | [], _ => exact absurd rfl hu
  | [a], h =>
    obtain ⟨-, rfl⟩ := List.cons.inj h
    exact .inl ⟨_, rfl, rfl⟩
  | [a, b], h =>
    obtain ⟨-, h⟩ := List.cons.inj h
    obtain ⟨rfl, -⟩ := List.cons.inj h
    exact .inr rfl
  | [a, b, c], h =>
    obtain ⟨-, h⟩ := List.cons.inj h
    obtain ⟨-, h⟩ := List.cons.inj h
    obtain ⟨-, rfl⟩ := List.cons.inj h
    exact .inl ⟨_, rfl, rfl⟩
  | a :: b :: c :: d :: u, h =>
    have hlength := congrArg List.length h
    simp only [element, length_cons, length_append, length_nil] at hlength
    exact absurd (length_eq_zero_iff.mp (by omega)) hv

theorem append {ts us : List Token} (hts : Shows S ts) (hus : Shows S us) : Shows S (ts ++ us) where
  elements x k hx := by
    rcases infix_append_cases hx with hx | hx | ⟨u, v, hu, hv, huv, ⟨r, rfl⟩, ⟨r', rfl⟩⟩
    · exact hts.elements x k hx
    · exact hus.elements x k hx
    rcases element_cut hu hv huv with ⟨t, ht, hbracket⟩ | hlast
    · have hfirst := hus.first t (by rw [head?_append, ht]; rfl)
      rw [hbracket] at hfirst
      cases hfirst
    · exact absurd rfl (hts.last _ (by rw [getLast?_append, hlast]; rfl))
  first t ht := by
    cases ts with
    | nil => exact hus.first t ht
    | cons a ts => exact hts.first t ht
  last t ht := by
    rw [getLast?_append] at ht
    cases hlast : us.getLast? with
    | none => exact hts.last t (by simpa [hlast] using ht)
    | some u => exact hus.last t (by simpa [hlast] using ht)

theorem element {x : String} {k : Nat} (h : S x k) : Shows S (element x k) where
  elements y j hy := by
    have heq : Mql.element y j = Mql.element x k := hy.eq_of_length rfl
    simp only [Mql.element, List.cons.injEq, Token.name.injEq, true_and, and_true] at heq
    obtain ⟨rfl, hjk⟩ := heq
    rwa [eq_of_numeral_eq hjk]
  first t ht := by
    cases ht
    rfl
  last t ht := by
    cases ht
    simp

end Shows

end TradeGraph.Mql
