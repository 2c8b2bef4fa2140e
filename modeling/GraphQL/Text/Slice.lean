/-! Cutting a text at byte offsets. A cut exists only on a character boundary. -/
namespace GraphQL.Text

/-- The number of bytes that characters take in UTF-8. -/
def byteLength : List Char → Nat
  | [] => 0
  | c :: cs => c.utf8Size + byteLength cs

@[simp] theorem byteLength_nil : byteLength [] = 0 := rfl

@[simp] theorem byteLength_cons (c : Char) (cs : List Char) :
    byteLength (c :: cs) = c.utf8Size + byteLength cs := rfl

@[simp] theorem byteLength_append (a b : List Char) :
    byteLength (a ++ b) = byteLength a + byteLength b := by
  induction a with
  | nil => simp
  | cons c cs ih => simp [ih, Nat.add_assoc]

/-- The number of UTF-16 units that a character takes. -/
def units16 (c : Char) : Nat := if c.toNat < 0x10000 then 1 else 2

/-- The number of UTF-16 units that characters take. -/
def length16 : List Char → Nat
  | [] => 0
  | c :: cs => units16 c + length16 cs

@[simp] theorem length16_nil : length16 [] = 0 := rfl

@[simp] theorem length16_cons (c : Char) (cs : List Char) :
    length16 (c :: cs) = units16 c + length16 cs := rfl

@[simp] theorem length16_append (a b : List Char) :
    length16 (a ++ b) = length16 a + length16 b := by
  induction a with
  | nil => simp
  | cons c cs ih => simp [ih, Nat.add_assoc]

/-- What stands before byte `n`, and what stands from there on. -/
def splitAtByte : Nat → List Char → Option (List Char × List Char)
  | 0, cs => some ([], cs)
  | _ + 1, [] => none
  | n + 1, c :: cs =>
    if c.utf8Size ≤ n + 1 then
      (splitAtByte (n + 1 - c.utf8Size) cs).map fun (before, after) => (c :: before, after)
    else none

theorem splitAtByte_append (a b : List Char) :
    splitAtByte (byteLength a) (a ++ b) = some (a, b) := by
  induction a with
  | nil => cases b <;> rfl
  | cons c cs ih =>
    have pos := c.utf8Size_pos
    obtain ⟨n, hn⟩ : ∃ n, byteLength (c :: cs) = n + 1 :=
      ⟨byteLength (c :: cs) - 1, by simp only [byteLength_cons]; omega⟩
    have hle : c.utf8Size ≤ n + 1 := by rw [← hn]; simp
    have hsub : n + 1 - c.utf8Size = byteLength cs := by rw [← hn]; simp
    rw [hn, List.cons_append, splitAtByte, if_pos hle, hsub, ih]
    rfl

/-- Two divisions of a text after the same number of bytes are the same. -/
theorem append_inj_byteLength {a b c d : List Char} (h : a ++ b = c ++ d)
    (same : byteLength a = byteLength c) : a = c ∧ b = d := by
  have split := splitAtByte_append a b
  rw [h, same, splitAtByte_append] at split
  simpa [eq_comm] using split

/-- Of two divisions of a text, the one after more bytes comes later. -/
theorem append_of_byteLength_le {a b c d : List Char} (h : a ++ b = c ++ d)
    (le : byteLength c ≤ byteLength a) : ∃ middle, a = c ++ middle ∧ d = middle ++ b := by
  rcases List.append_eq_append_iff.mp h with ⟨middle, rfl, rfl⟩ | later
  · have none : byteLength middle = byteLength [] := by
      simp only [byteLength_append, byteLength_nil] at le ⊢
      omega
    obtain ⟨rfl, -⟩ := append_inj_byteLength (b := []) (d := middle) (by simp) none
    exact ⟨[], by simp, by simp⟩
  · exact later

/-- The characters from byte `start` to byte `stop`, if both are boundaries in this order. -/
def slice (start stop : Nat) (cs : List Char) : Option (List Char) :=
  if start ≤ stop then do
    let (_, rest) ← splitAtByte start cs
    let (middle, _) ← splitAtByte (stop - start) rest
    return middle
  else none

/-- A slice between the ends of two adjacent parts is the second part. -/
theorem slice_middle (a b c : List Char) :
    slice (byteLength a) (byteLength a + byteLength b) (a ++ b ++ c) = some b := by
  simp [slice, splitAtByte_append]

end GraphQL.Text
