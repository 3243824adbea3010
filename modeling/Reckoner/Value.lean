import Reckoner.Number.Limit
import Reckoner.Text.Quoted

set_option autoImplicit false

/-!
# Host values

What a host hands to the library where anything may turn up: the result of a
callback, or the symbol, precedence, name and arity of a registration.  A value
has two written forms.  `shown` is the unambiguous one, with text in quotation
marks; `plain` differs from it for a text, which it leaves as it is, and for objects
of the host, which write both themselves.  Writing a value may raise an exception.
-/

namespace Reckoner

/-- What an object of the host, of which nothing else is known, does when it is asked. -/
structure HostObject where
  /-- its unambiguous written form -/
  shown : Except Exception String
  /-- its written form inside a sentence -/
  plain : Except Exception String
  /-- what is raised if something is looked up under it, if it cannot be a key -/
  unusable : Option Exception

/-- A value of the host. -/
inductive Value where
  /-- the absence of a value -/
  | absent
  | bool (b : Bool)
  | int (n : Int)
  | float (x : Float)
  | text (s : String)
  | list (items : List Value)
  /-- any other real number, and the double that it converts to -/
  | number (object : HostObject) (converted : Except Exception Float)
  | other (object : HostObject)

namespace Value

instance : Inhabited Value := ⟨.absent⟩

mutual

/-- The unambiguous written form. -/
def shown : Value → Except Exception String
  | .absent => .ok "None"
  | .bool true => .ok "True"
  | .bool false => .ok "False"
  | .int n => Number.written n
  | .float x => .ok (Number.floatText x)
  | .text s => .ok (Text.quoted s)
  | .list items => (shownItems items).map fun forms => "[" ++ ", ".intercalate forms ++ "]"
  | .number object _ => object.shown
  | .other object => object.shown

/-- The written forms of the items of a list. -/
def shownItems : List Value → Except Exception (List String)
  | [] => .ok []
  | v :: vs => match shown v with
    | .error e => .error e
    | .ok form => (shownItems vs).map (form :: ·)

end

/-- The written form inside a sentence. -/
def plain : Value → Except Exception String
  | .text s => .ok s
  | .number object _ => object.plain
  | .other object => object.plain
  | v => v.shown

/-- What is raised if something is looked up under a value that cannot be a key. -/
def unusable : Value → Option Exception
  | .list _ => some (.fault .badType "unhashable type: 'list'")
  | .number object _ => object.unusable
  | .other object => object.unusable
  | _ => none

end Value

/-! ## Numbers among the values -/

/-- A value read as a number. -/
inductive Value.Reading where
  | number (x : Float)
  /-- a number whose conversion to a double raises an exception -/
  | raised (e : Exception)
  | notANumber
  deriving DecidableEq

/-- Reads a value as a double: an integer as the double nearest to it, a truth
value as one or zero, and any other number as the host converts it. -/
def Value.reading : Value → Value.Reading
  | .float x => .number x
  | .int n => ofInt n
  | .bool b => ofInt (if b then 1 else 0)
  | .number _ converted => match converted with
    | .ok x => .number x
    | .error e => .raised e
  | _ => .notANumber
where
  ofInt (n : Int) : Value.Reading :=
    match Number.ofInt? n with
    | some x => .number x
    | .none => .raised .integerTooLarge

end Reckoner
