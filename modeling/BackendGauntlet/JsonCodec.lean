import BackendGauntlet.Json

/-! Values as JSON documents: an encoder with the decoder that reads it back. -/
namespace BackendGauntlet

open PyText

structure JsonCodec (α : Type*) where
  encode : α → Json
  decode : Json → Option α
  decode_encode : ∀ a, decode (encode a) = some a

namespace JsonCodec

variable {α β : Type*}

def text : JsonCodec Text where
  encode s := .str s
  decode
    | .str s => some s
    | _ => none
  decode_encode _ := rfl

def int : JsonCodec ℤ where
  encode n := .num n
  decode
    | .num n => some n
    | _ => none
  decode_encode _ := rfl

def nat : JsonCodec ℕ where
  encode n := .num n
  decode
    | .num n => if 0 ≤ n then some n.toNat else none
    | _ => none
  decode_encode n := by simp

def bool : JsonCodec Bool where
  encode b := .bool b
  decode
    | .bool b => some b
    | _ => none
  decode_encode _ := rfl

def via (c : JsonCodec β) (f : α → β) (g : β → Option α) (h : ∀ a, g (f a) = some a) :
    JsonCodec α where
  encode a := c.encode (f a)
  decode j := (c.decode j).bind g
  decode_encode a := by rw [c.decode_encode, Option.bind_some, h]

def nullable (c : JsonCodec α) (h : ∀ a, c.encode a ≠ .null) : JsonCodec (Option α) where
  encode
    | none => .null
    | some a => c.encode a
  decode
    | .null => some none
    | j => (c.decode j).map some
  decode_encode a := by
    cases a with
    | none => rfl
    | some a =>
      have hc := c.decode_encode a
      simp only
      split
      · rename_i hj
        exact absurd hj (h a)
      · rw [hc, Option.map_some]

def decodeItems (c : JsonCodec α) : List Json → Option (List α)
  | [] => some []
  | j :: js => (c.decode j).bind (fun a => (decodeItems c js).map (fun as => a :: as))

variable (c : JsonCodec α)

theorem decodeItems_encode (as : List α) :
    decodeItems c (as.map c.encode) = some as := by
  induction as with
  | nil => rfl
  | cons a as ih => simp [decodeItems, c.decode_encode, ih]

def list (c : JsonCodec α) : JsonCodec (List α) where
  encode as := .arr (as.map c.encode)
  decode
    | .arr js => decodeItems c js
    | _ => none
  decode_encode as := decodeItems_encode c as

def field (c : JsonCodec α) (name : String) (j : Json) : Option α :=
  (j.get name.toList).bind c.decode

def fieldOr (c : JsonCodec α) (name : String) (default : α) (j : Json) : Option α :=
  match j.get name.toList with
  | none => some default
  | some v => c.decode v

/-- A field that holds an encoded value is decoded to it. -/
theorem field_of_get (name : String) (j : Json) (a : α)
    (h : j.get name.toList = some (c.encode a)) : c.field name j = some a := by
  rw [field, h, Option.bind_some, c.decode_encode]

theorem fieldOr_of_get (name : String) (default : α) (j : Json) (a : α)
    (h : j.get name.toList = some (c.encode a)) : c.fieldOr name default j = some a := by
  rw [fieldOr, h]
  exact c.decode_encode a

end JsonCodec

end BackendGauntlet
