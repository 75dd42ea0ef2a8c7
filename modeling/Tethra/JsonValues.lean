import Mathlib.Tactic

set_option autoImplicit false

/-!
# JSON values and the formats of their fields

A format is a writer and a reader that gives back what was written. Readers of records take
their fields one by one: required, optional, or with a default.
-/
namespace Tethra.JsonValues

/-- An object has one entry for each of its keys. -/
inductive Json where
  | null
  | bool (b : Bool)
  | number (n : ℤ)
  | string (s : String)
  | array (items : List Json)
  | object (entries : List (String × Json))

namespace Json

def get (key : String) : Json → Option Json
  | object entries => entries.lookup key
  | _ => none

def asStr : Json → Option String
  | string s => some s
  | _ => none

def asBool : Json → Option Bool
  | bool b => some b
  | _ => none

end Json

structure Format (α : Type) where
  write : α → Json
  read : Json → Except String α
  read_write : ∀ a, read (write a) = .ok a
  write_ne_null : ∀ a, write a ≠ .null

/-- A value with a text of its own. -/
structure Text (α : Type) where
  display : α → String
  parse : String → Except String α
  parse_display : ∀ a, parse (display a) = .ok a

namespace Format

def invalidType {α : Type} (expected : String) : Except String α :=
  .error ("invalid type: expected " ++ expected)

def string : Format String where
  write := .string
  read
    | .string s => .ok s
    | _ => invalidType "a string"
  read_write _ := rfl
  write_ne_null _ h := by cases h

def bool : Format Bool where
  write := .bool
  read
    | .bool b => .ok b
    | _ => invalidType "a boolean"
  read_write _ := rfl
  write_ne_null _ h := by cases h

def uint16 : Format UInt16 where
  write n := .number n.toNat
  read
    | .number n => if 0 ≤ n ∧ n < 2 ^ 16 then .ok (UInt16.ofNat n.toNat) else invalidType "u16"
    | _ => invalidType "u16"
  read_write n := by
    have hn := n.toNat_lt
    have hrange : 0 ≤ (n.toNat : ℤ) ∧ (n.toNat : ℤ) < 2 ^ 16 := by omega
    dsimp only
    rw [if_pos hrange]
    simp
  write_ne_null _ h := by cases h

def text {α : Type} (t : Text α) : Format α where
  write a := .string (t.display a)
  read
    | .string s => t.parse s
    | _ => invalidType "a string"
  read_write := t.parse_display
  write_ne_null _ h := by cases h

/-- A value of an enumeration as the name of its variant. -/
def variant {α : Type} (name : α → String) (parse : String → Except String α)
    (parse_name : ∀ a, parse (name a) = .ok a) : Format α := text ⟨name, parse, parse_name⟩

def readAll {α : Type} (f : Format α) : List Json → Except String (List α)
  | [] => .ok []
  | v :: vs => do
    let a ← f.read v
    let as ← readAll f vs
    pure (a :: as)

theorem readAll_map_write {α : Type} (f : Format α) (as : List α) :
    f.readAll (as.map f.write) = .ok as := by
  induction as with
  | nil => rfl
  | cons a as ih =>
    rw [List.map_cons, readAll, f.read_write, ih]
    rfl

def list {α : Type} (f : Format α) : Format (List α) where
  write as := .array (as.map f.write)
  read
    | .array vs => f.readAll vs
    | _ => invalidType "a sequence"
  read_write := f.readAll_map_write
  write_ne_null _ h := by cases h

end Format

section Fields
variable {α : Type} (f : Format α)

def missingField (key : String) : Except String α := .error ("missing field " ++ key)

def field (key : String) (v : Json) : Except String α :=
  match v.get key with
  | some x => f.read x
  | none => missingField key

def fieldOr (default : α) (key : String) (v : Json) : Except String α :=
  match v.get key with
  | some x => f.read x
  | none => .ok default

def optionField (key : String) (v : Json) : Except String (Option α) :=
  match v.get key with
  | none => .ok none
  | some .null => .ok none
  | some x => some <$> f.read x

def writeOption : Option α → Json
  | some a => f.write a
  | none => .null

variable {f}

@[simp] theorem field_written {key : String} {v : Json} {a : α}
    (h : v.get key = some (f.write a)) : field f key v = .ok a := by
  rw [field, h]
  exact f.read_write a

@[simp] theorem fieldOr_written {key : String} {v : Json} {default a : α}
    (h : v.get key = some (f.write a)) : fieldOr f default key v = .ok a := by
  rw [fieldOr, h]
  exact f.read_write a

@[simp] theorem optionField_written {key : String} {v : Json} {a : Option α}
    (h : v.get key = some (writeOption f a)) : optionField f key v = .ok a := by
  unfold optionField
  rw [h]
  cases a with
  | none => rfl
  | some a =>
    have hne := f.write_ne_null a
    have hread := f.read_write a
    cases hw : f.write a <;> simp_all [writeOption]

end Fields
end Tethra.JsonValues
