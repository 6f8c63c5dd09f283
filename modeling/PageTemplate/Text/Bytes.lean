namespace PageTemplate.Text

def bytes (s : String) : List UInt8 := s.toUTF8.data.toList

def compareBytes : List UInt8 → List UInt8 → Ordering
  | [], [] => .eq
  | [], _ :: _ => .lt
  | _ :: _, [] => .gt
  | a :: as, b :: bs => (compare a b).then (compareBytes as bs)

def compareText (a b : String) : Ordering := compareBytes (bytes a) (bytes b)

end PageTemplate.Text
