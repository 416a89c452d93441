/-!
Reading of UTF-8. A decoder walks over the octets with at most one character under way, and stops
at the first octet that no encoded text can hold at its place. The error names the octets of the
character under way, without the one that does not fit.
-/

namespace SlangScript.Text.Utf8

/-- Why octets are no UTF-8 text. -/
inductive Reason where
  | invalidStart
  | invalidContinuation
  | unexpectedEnd
  deriving DecidableEq, Repr

def Reason.text : Reason → String
  | .invalidStart => "invalid start byte"
  | .invalidContinuation => "invalid continuation byte"
  | .unexpectedEnd => "unexpected end of data"

/-- Octets `first` to `last`, the first of them `octet`, that cannot be read. -/
structure Error where
  octet : UInt8
  first : Nat
  last : Nat
  reason : Reason
  deriving DecidableEq, Repr

def hexPair (octet : UInt8) : String :=
  String.ofList [Nat.digitChar (octet.toNat / 16), Nat.digitChar (octet.toNat % 16)]

/-- The text of an error; a single octet is shown, of more only the places. -/
def Error.message (e : Error) : String :=
  let place :=
    if e.first = e.last then "byte 0x" ++ hexPair e.octet ++ " in position " ++ e.first.repr
    else "bytes in position " ++ e.first.repr ++ "-" ++ e.last.repr
  "'utf-8' codec can't decode " ++ place ++ ": " ++ e.reason.text

/-- A character of which the octets since `start` have been read. -/
structure Partial where
  start : Nat
  lead : UInt8
  /-- The octets still owed; at least one. -/
  owed : Nat
  /-- The least and the greatest octet that may come next. -/
  low : UInt8
  high : UInt8
  /-- The bits read so far. -/
  code : Nat

/-- The character that a lead octet at `start` begins, if it is one. -/
def Partial.ofLead? (start : Nat) (lead : UInt8) : Option Partial :=
  let begin (owed : Nat) (low high : UInt8) (code : Nat) : Option Partial :=
    some ⟨start, lead, owed, low, high, code⟩
  if lead < 0xC2 then none
  else if lead < 0xE0 then begin 1 0x80 0xBF (lead.toNat - 0xC0)
  else if lead < 0xF0 then
    let low : UInt8 := if lead = 0xE0 then 0xA0 else 0x80
    let high : UInt8 := if lead = 0xED then 0x9F else 0xBF
    begin 2 low high (lead.toNat - 0xE0)
  else if lead < 0xF5 then
    let low : UInt8 := if lead = 0xF0 then 0x90 else 0x80
    let high : UInt8 := if lead = 0xF4 then 0x8F else 0xBF
    begin 3 low high (lead.toNat - 0xF0)
  else none

/-- The error of a character under way that ends before octet `position`. -/
def Partial.error (p : Partial) (position : Nat) (reason : Reason) : Error :=
  ⟨p.lead, p.start, position - 1, reason⟩

/-- Decodes the octets from `position` on, with a character under way or none; `done` holds the
characters before it, the last one first. -/
def decodeFrom (under : Option Partial) (position : Nat) (done : List Char) :
    List UInt8 → Except Error (List Char)
  | [] =>
    match under with
    | none => .ok done.reverse
    | some p => .error (p.error position .unexpectedEnd)
  | octet :: rest =>
    match under with
    | none =>
      if octet < 0x80 then
        decodeFrom none (position + 1) (Char.ofNat octet.toNat :: done) rest
      else
        match Partial.ofLead? position octet with
        | none => .error ⟨octet, position, position, .invalidStart⟩
        | some p => decodeFrom (some p) (position + 1) done rest
    | some p =>
      if octet < p.low ∨ p.high < octet then
        .error (p.error position .invalidContinuation)
      else
        let code := p.code * 64 + octet.toNat % 64
        if p.owed ≤ 1 then decodeFrom none (position + 1) (Char.ofNat code :: done) rest
        else
          let p := { p with owed := p.owed - 1, low := 0x80, high := 0xBF, code }
          decodeFrom (some p) (position + 1) done rest

/-- The characters that octets encode. -/
def decode (octets : List UInt8) : Except Error (List Char) := decodeFrom none 0 [] octets

theorem decodeFrom_ascii (position : Nat) (done : List Char) {text : List Char}
    (h : ∀ c ∈ text, c.toNat < 0x80) :
    decodeFrom none position done (text.map fun c => UInt8.ofNat c.toNat) =
      .ok (done.reverse ++ text) := by
  induction text generalizing position done with
  | nil => simp [decodeFrom]
  | cons c text ih =>
    obtain ⟨low, rest⟩ := List.forall_mem_cons.1 h
    have code : (UInt8.ofNat c.toNat).toNat = c.toNat :=
      UInt8.toNat_ofNat_of_lt' (Nat.lt_of_lt_of_le low (by decide))
    have small : UInt8.ofNat c.toNat < 0x80 := by
      rw [UInt8.lt_iff_toNat_lt, code]
      exact low
    rw [List.map_cons, decodeFrom]
    simp only [if_pos small, code, Char.ofNat_toNat]
    exact (ih _ _ rest).trans (by simp)

/-- A character below U+0080 is an octet of its own. -/
theorem decode_ascii {text : List Char} (h : ∀ c ∈ text, c.toNat < 0x80) :
    decode (text.map fun c => UInt8.ofNat c.toNat) = .ok text := decodeFrom_ascii 0 [] h

end SlangScript.Text.Utf8
