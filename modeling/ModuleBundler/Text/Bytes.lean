/-! Measuring and cutting text by the bytes of its UTF-8 form. -/
namespace ModuleBundler.Text

/-- The number of bytes of some characters. -/
def byteSize (cs : List Char) : Nat := cs.foldr (fun c size => c.utf8Size + size) 0

@[simp] theorem byteSize_nil : byteSize [] = 0 := rfl

@[simp] theorem byteSize_cons (c : Char) (cs : List Char) :
    byteSize (c :: cs) = c.utf8Size + byteSize cs := rfl

@[simp] theorem byteSize_append (cs ds : List Char) :
    byteSize (cs ++ ds) = byteSize cs + byteSize ds := by
  induction cs with
  | nil => simp
  | cons c cs ih => simp [ih, Nat.add_assoc]

theorem byteSize_pos {cs : List Char} (h : cs ≠ []) : 0 < byteSize cs := by
  cases cs with
  | nil => contradiction
  | cons c cs => have := c.utf8Size_pos; simp; omega

/-- The text without its first bytes; a character that the cut would split goes with them. -/
def dropBytes (n : Nat) : List Char → List Char
  | [] => []
  | c :: cs => if n = 0 then c :: cs else dropBytes (n - c.utf8Size) cs

/-- The longest start of the text that has no more than so many bytes. -/
def takeBytes (n : Nat) : List Char → List Char
  | [] => []
  | c :: cs => if c.utf8Size ≤ n then c :: takeBytes (n - c.utf8Size) cs else []

/-- The characters between two byte offsets. -/
def slice (start stop : Nat) (cs : List Char) : List Char :=
  takeBytes (stop - start) (dropBytes start cs)

@[simp] theorem dropBytes_zero (cs : List Char) : dropBytes 0 cs = cs := by
  cases cs <;> simp [dropBytes]

@[simp] theorem takeBytes_zero (cs : List Char) : takeBytes 0 cs = [] := by
  cases cs with
  | nil => rfl
  | cons c cs => have := c.utf8Size_pos; simp [takeBytes]; omega

@[simp] theorem dropBytes_append (cs ds : List Char) :
    dropBytes (byteSize cs) (cs ++ ds) = ds := by
  induction cs with
  | nil => simp
  | cons c cs ih => have := c.utf8Size_pos; simp [dropBytes, ih]; omega

@[simp] theorem takeBytes_append (cs ds : List Char) :
    takeBytes (byteSize cs) (cs ++ ds) = cs := by
  induction cs with
  | nil => simp
  | cons c cs ih => simp [takeBytes, ih]

theorem slice_append (cs ds es : List Char) :
    slice (byteSize cs) (byteSize cs + byteSize ds) (cs ++ (ds ++ es)) = ds := by
  simp [slice]

end ModuleBundler.Text
