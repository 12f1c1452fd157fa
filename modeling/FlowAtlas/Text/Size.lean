/-!
# Sizes in bytes

How many bytes a text takes in UTF-8, which is what places in a text and lengths
of names are counted in.
-/

namespace FlowAtlas.Text

/-- The number of bytes that some characters take. -/
def byteCount : List Char → Nat
  | [] => 0
  | c :: cs => c.utf8Size + byteCount cs

@[simp] theorem byteCount_append (cs ds : List Char) :
    byteCount (cs ++ ds) = byteCount cs + byteCount ds := by
  induction cs with
  | nil => simp [byteCount]
  | cons c cs ih => simp only [List.cons_append, byteCount, ih]; omega

theorem utf8ByteSize_ofList (cs : List Char) :
    (String.ofList cs).utf8ByteSize = byteCount cs := by
  induction cs with
  | nil => rfl
  | cons c cs ih =>
    have h : String.ofList (c :: cs)
        = String.singleton c ++ String.ofList cs := by
      apply String.toList_inj.1
      simp
    rw [h, String.utf8ByteSize_append, ih, byteCount,
      String.utf8ByteSize_singleton]

end FlowAtlas.Text
