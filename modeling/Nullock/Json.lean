import Nullock.Text
import Mathlib.Data.Rat.Defs
import Mathlib.Algebra.Order.Ring.Unbundled.Rat

namespace Nullock

inductive QJsonValue where
  | null
  | undefined
  | bool (b : Bool)
  | double (d : Rat)
  | string (s : QString)
  | array (elems : List QJsonValue)
  | object (members : List (QString × QJsonValue))

abbrev QJsonObject := List (QString × QJsonValue)

namespace QJsonObject

def contains (o : QJsonObject) (key : String) : Bool := (o.lookup (utf16 key)).isSome

def value (o : QJsonObject) (key : String) : QJsonValue :=
  (o.lookup (utf16 key)).getD .undefined

end QJsonObject

def IsInt32 (n : Int) : Prop := -2 ^ 31 ≤ n ∧ n < 2 ^ 31

instance (n : Int) : Decidable (IsInt32 n) := inferInstanceAs (Decidable (_ ∧ _))

namespace QJsonValue

def isObject : QJsonValue → Bool
  | .object _ => true
  | _ => false

def isBool : QJsonValue → Bool
  | .bool _ => true
  | _ => false

def isString : QJsonValue → Bool
  | .string _ => true
  | _ => false

def isDouble : QJsonValue → Bool
  | .double _ => true
  | _ => false

def toObject : QJsonValue → QJsonObject
  | .object o => o
  | _ => []

def toBool (defaultValue : Bool) : QJsonValue → Bool
  | .bool b => b
  | _ => defaultValue

def toQString : QJsonValue → QString
  | .string s => s
  | _ => []

def toDouble : QJsonValue → Rat
  | .double d => d
  | _ => 0

def toInt (defaultValue : Int) : QJsonValue → Int
  | .double d => if d.den = 1 ∧ IsInt32 d.num then d.num else defaultValue
  | _ => defaultValue

end QJsonValue

theorem toDouble_eq_toInt_iff (d : Rat) :
    (QJsonValue.double d).toDouble = ((QJsonValue.double d).toInt (-1) : Rat) ↔
      ∃ n : Int, IsInt32 n ∧ d = n := by
  simp only [QJsonValue.toDouble, QJsonValue.toInt]
  split
  · rename_i h
    have hd : d = (d.num : Rat) := (Rat.den_eq_one_iff d).1 h.1 |>.symm
    exact ⟨fun _ => ⟨d.num, h.2, hd⟩, fun _ => hd⟩
  · rename_i h
    constructor
    · intro he
      refine absurd ?_ h
      rw [he]
      exact ⟨rfl, by decide⟩
    · rintro ⟨n, hn, he⟩
      refine absurd ?_ h
      rw [he]
      exact ⟨rfl, hn⟩

end Nullock
