/-! Blank characters (the White_Space property), trimming, and cutting a line into words. -/

namespace DeviceShell.Text

/-- The code points that have the White_Space property, as closed ranges in increasing order. -/
def blankRanges : List (Nat × Nat) :=
  [(0x09, 0x0D), (0x20, 0x20), (0x85, 0x85), (0xA0, 0xA0), (0x1680, 0x1680), (0x2000, 0x200A),
   (0x2028, 0x2029), (0x202F, 0x202F), (0x205F, 0x205F), (0x3000, 0x3000)]

def isBlank (c : Char) : Bool :=
  blankRanges.any fun range => range.1 ≤ c.toNat && c.toNat ≤ range.2

def trimChars (cs : List Char) : List Char :=
  ((cs.dropWhile isBlank).reverse.dropWhile isBlank).reverse

def trim (text : String) : String := String.ofList (trimChars text.toList)

def splitWordChars (cs : List Char) : List Char × List Char :=
  let body := trimChars cs
  (body.takeWhile fun c => !isBlank c, trimChars (body.dropWhile fun c => !isBlank c))

/-- The first word of a line and the trimmed remainder; both empty on a blank line. -/
def splitWord (text : String) : String × String :=
  let parts := splitWordChars text.toList
  (String.ofList parts.1, String.ofList parts.2)

/-- The words after an unfinished word, given its letters last one first. -/
private def wordsFrom : List Char → List Char → List (List Char)
  | [], [] => []
  | letters, [] => [letters.reverse]
  | letters, c :: cs =>
    if isBlank c then
      if letters.isEmpty then wordsFrom [] cs else letters.reverse :: wordsFrom [] cs
    else wordsFrom (c :: letters) cs

/-- The maximal runs of characters that are not blank, in order. -/
def words (text : String) : List String := (wordsFrom [] text.toList).map String.ofList

private theorem wordsFrom_eq (letters cs : List Char) :
    wordsFrom letters cs =
      (List.splitOnPPrepend isBlank cs letters).filter fun word => !word.isEmpty := by
  induction cs generalizing letters with
  | nil => cases letters <;> simp [wordsFrom]
  | cons c cs ih =>
    rw [wordsFrom]
    cases blank : isBlank c with
    | true =>
      rw [List.splitOnPPrepend_cons_pos blank, ← List.splitOnPPrepend_nil_right]
      cases letters <;> simp [ih]
    | false => rw [List.splitOnPPrepend_cons_neg blank, ← ih, if_neg Bool.false_ne_true]

/-- The words are what stands between blanks, where anything does. -/
theorem words_eq (text : String) :
    words text =
      ((text.toList.splitOnP isBlank).filter fun word => !word.isEmpty).map String.ofList := by
  rw [words, wordsFrom_eq, List.splitOnPPrepend_nil_right]

end DeviceShell.Text
