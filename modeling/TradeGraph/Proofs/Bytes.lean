import TradeGraph.Proofs.Scope

/-!
# Words by their bytes

The characters of a literal are found by decoding its bytes, which takes many steps of evaluation.
Each byte of a word is a character of its own, so what is asked of the characters of a word can be
asked of its bytes.
-/

namespace TradeGraph.Mql

open List

def bytes (s : String) : List Nat :=
  s.toByteArray.data.toList.map UInt8.toNat

def charBytes (c : Char) : List Nat :=
  (String.utf8EncodeChar c).map UInt8.toNat

theorem bytes_eq_flatMap (s : String) : bytes s = s.toList.flatMap charBytes := by
  rw [bytes, ← String.utf8Encode_toList, List.utf8Encode, data_toByteArray, map_flatMap]
  rfl

theorem mem_bytes {s : String} {c : Char} (hc : c ∈ s.toList) : ∀ b ∈ charBytes c, b ∈ bytes s := by
  rw [bytes_eq_flatMap]
  exact fun b hb => mem_flatMap.mpr ⟨c, hc, hb⟩

theorem bytes_prefix_bytes {s t : String} (h : s.toList <+: t.toList) : bytes s <+: bytes t := by
  obtain ⟨rest, hrest⟩ := h
  rw [bytes_eq_flatMap, bytes_eq_flatMap, ← hrest, flatMap_append]
  exact prefix_append _ _

theorem charBytes_of_small {c : Char} (h : ∀ b ∈ charBytes c, b < 128) :
    charBytes c = [c.toNat] := by
  have hval : c.toNat = c.val.toNat := rfl
  rw [charBytes, String.utf8EncodeChar] at h ⊢
  split at h
  · rename_i hsmall
    rw [if_pos hsmall, map_singleton, UInt8.toNat_ofNat']
    congr 1
    omega
  · split at h
    · simp at h
      omega
    · split at h
      · simp at h
        omega
      · simp at h
        omega

theorem toList_eq_of_bytes {s : String} (h : ∀ b ∈ bytes s, b < 128) :
    s.toList = (bytes s).map Char.ofNat := by
  rw [bytes_eq_flatMap] at h ⊢
  generalize s.toList = cs at h ⊢
  induction cs with
  | nil => rfl
  | cons c cs ih =>
    rw [flatMap_cons, forall_mem_append] at h
    rw [flatMap_cons, charBytes_of_small h.1, singleton_append, map_cons,
      Char.ofNat_toNat, ← ih h.2]

/-! ## Words -/

/-- Is it the byte of a letter, a digit or an underscore? -/
def isIdentByte (b : Nat) : Bool :=
  Nat.ble 97 b && Nat.ble b 122 || Nat.ble 65 b && Nat.ble b 90 || Nat.ble 48 b && Nat.ble b 57 ||
    Nat.beq b 95

theorem isIdentByte_small {b : Nat} (h : isIdentByte b = true) : b < 128 := by
  simp only [isIdentByte, Bool.or_eq_true, Bool.and_eq_true, Nat.ble_eq, Nat.beq_eq] at h
  omega

theorem isIdentChar_ofNat {b : Nat} (h : isIdentByte b = true) :
    isIdentChar (Char.ofNat b) = true := by
  have hall : ∀ n < 128, isIdentByte n = true → isIdentChar (Char.ofNat n) = true := by
    decide +kernel
  exact hall b (isIdentByte_small h) h

/-- Are all bytes of the text those of a word? -/
def isIdentText (s : String) : Bool :=
  (bytes s).all isIdentByte

theorem toList_of_isIdentText {s : String} (h : isIdentText s = true) :
    s.toList = (bytes s).map Char.ofNat :=
  toList_eq_of_bytes fun b hb => isIdentByte_small (all_eq_true.mp h b hb)

theorem all_isIdentChar {s : String} (h : isIdentText s = true) :
    s.toList.all isIdentChar = true := by
  rw [toList_of_isIdentText h, all_map, all_eq_true]
  exact fun b hb => isIdentChar_ofNat (all_eq_true.mp h b hb)

theorem isWord_of_bytes {w : String} (h : isIdentText w = true) (hne : (bytes w).isEmpty = false) :
    isWord w = true := by
  rw [isWord, all_isIdentChar h, toList_of_isIdentText h, isEmpty_map, hne]
  rfl

instance (w : String) : Decidable (isWord w = true) :=
  if h : isIdentText w = true ∧ (bytes w).isEmpty = false then .isTrue (isWord_of_bytes h.1 h.2)
  else decEq (isWord w) true

theorem oneLine_of_bytes {t : String} (h : (bytes t).all (!Nat.beq · 10) = true) :
    OneLine t :=
  fun hbreak => absurd (all_eq_true.mp h 10 (mem_bytes hbreak 10 (by decide))) (by decide)

instance (t : String) : Decidable (OneLine t) :=
  if h : (bytes t).all (!Nat.beq · 10) = true then .isTrue (oneLine_of_bytes h)
  else inferInstanceAs (Decidable ('\n' ∉ t.toList))

/-! ## Kinds of words -/

def startsInput (cs : List Char) : Bool :=
  ['I', 'n', 'p'].isPrefixOf cs

/-- Do the characters start like the name of a variable of a signal? -/
def startsSignal : List Char → Bool
  | 'i' :: 'n' :: 'd' :: c :: _ => c.isDigit
  | 'p' :: 'a' :: c :: _ => c.isDigit
  | _ => false

theorem isInputName_eq (w : String) : isInputName w = startsInput w.toList := rfl

theorem isSignalName_eq (w : String) : isSignalName w = startsSignal w.toList := rfl

def reservedBytes : List (List Nat) :=
  [[114, 101, 116, 117, 114, 110],
    [77, 97, 110, 97, 103, 101, 79, 112, 101, 110, 80, 111, 115, 105, 116, 105, 111, 110, 115],
    [105, 77, 65], [105, 82, 83, 73], [105, 77, 65, 67, 68], [105, 66, 97, 110, 100, 115],
    [105, 65, 84, 82], [105, 65, 68, 88], [105, 83, 116, 111, 99, 104, 97, 115, 116, 105, 99],
    [105, 67, 67, 73], [98, 117, 121, 67, 111, 110, 100, 105, 116, 105, 111, 110],
    [98, 117, 121, 76, 111, 116, 83, 105, 122, 101], [79, 112, 101, 110, 66, 117, 121],
    [80, 108, 97, 99, 101, 66, 117, 121, 83, 116, 111, 112],
    [80, 108, 97, 99, 101, 66, 117, 121, 76, 105, 109, 105, 116], [66, 117, 121],
    [66, 117, 121, 83, 116, 111, 112], [66, 117, 121, 76, 105, 109, 105, 116],
    [115, 101, 108, 108, 67, 111, 110, 100, 105, 116, 105, 111, 110],
    [115, 101, 108, 108, 76, 111, 116, 83, 105, 122, 101], [79, 112, 101, 110, 83, 101, 108, 108],
    [80, 108, 97, 99, 101, 83, 101, 108, 108, 83, 116, 111, 112],
    [80, 108, 97, 99, 101, 83, 101, 108, 108, 76, 105, 109, 105, 116], [83, 101, 108, 108],
    [83, 101, 108, 108, 83, 116, 111, 112], [83, 101, 108, 108, 76, 105, 109, 105, 116],
    [115, 108, 80, 105, 112, 115], [116, 112, 80, 105, 112, 115]]

theorem reservedBytes_eq : reservedBytes = reservedWords.map bytes := by
  decide +kernel

def isPlainText (w : String) : Bool :=
  isIdentText w && !(bytes w).isEmpty && !startsInput ((bytes w).map Char.ofNat) &&
    !startsSignal ((bytes w).map Char.ofNat) && !reservedBytes.contains (bytes w)

theorem isPlain_of_bytes {w : String} (h : isPlainText w = true) : isPlain w = true := by
  simp only [isPlainText, Bool.and_eq_true, Bool.not_eq_true'] at h
  obtain ⟨⟨⟨⟨hident, hne⟩, hinput⟩, hsignal⟩, hreserved⟩ := h
  have hfree : reservedWords.contains w = false := by
    rw [reservedBytes_eq, contains_eq_mem, decide_eq_false_iff_not] at hreserved
    rw [contains_eq_mem, decide_eq_false_iff_not]
    exact fun hw => hreserved (mem_map_of_mem hw)
  rw [isPlain, isWord_of_bytes hident hne, isInputName_eq, isSignalName_eq,
    toList_of_isIdentText hident, hinput, hsignal, hfree]
  rfl

instance (w : String) : Decidable (isPlain w = true) :=
  if h : isPlainText w = true then .isTrue (isPlain_of_bytes h) else decEq (isPlain w) true

end TradeGraph.Mql
