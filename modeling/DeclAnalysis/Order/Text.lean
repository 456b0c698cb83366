/-!
# Order of texts

Texts are ordered by code points, first difference first, which is also the order of their UTF-8
bytes.
-/

namespace DeclAnalysis

/-- Whether a text comes before another one or is equal to it, by code points. -/
def textLe : List Char → List Char → Bool
  | [], _ => true
  | _ :: _, [] => false
  | c :: s, d :: t => decide (c.toNat < d.toNat) || (c == d && textLe s t)

end DeclAnalysis
