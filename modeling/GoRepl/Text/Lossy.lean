/-! # Bytes read as text

Bytes are read as UTF-8.  Where they are not, each longest beginning of a character, or else each
single byte, is read as the replacement character.

* `Lossy.start`, `Lossy.step`: reading one byte.
* `Lossy.decode`: the text of some bytes.
-/

namespace GoRepl.Text.Lossy

/-- A character of which some bytes are still missing. -/
structure Partial where
  /-- How many bytes are missing. -/
  missing : Nat
  /-- The bits read so far. -/
  value : Nat
  /-- The bounds of the next byte. -/
  low : UInt8
  high : UInt8

/-- The character that stands for bytes that are no text. -/
def replacement : Char := '\ufffd'

/-- Reads the first byte of a character. -/
def start (b : UInt8) : List Char × Option Partial :=
  let n := b.toNat
  if n < 0x80 then ([Char.ofNat n], none)
  else if 0xc2 ≤ n ∧ n ≤ 0xdf then ([], some ⟨1, n % 0x20, 0x80, 0xbf⟩)
  else if n = 0xe0 then ([], some ⟨2, 0, 0xa0, 0xbf⟩)
  else if n = 0xed then ([], some ⟨2, 0xd, 0x80, 0x9f⟩)
  else if 0xe1 ≤ n ∧ n ≤ 0xef then ([], some ⟨2, n % 0x10, 0x80, 0xbf⟩)
  else if n = 0xf0 then ([], some ⟨3, 0, 0x90, 0xbf⟩)
  else if 0xf1 ≤ n ∧ n ≤ 0xf3 then ([], some ⟨3, n % 8, 0x80, 0xbf⟩)
  else if n = 0xf4 then ([], some ⟨3, 4, 0x80, 0x8f⟩)
  else ([replacement], none)

/-- Reads one byte behind an unfinished character, or none. -/
def step (p? : Option Partial) (b : UInt8) : List Char × Option Partial :=
  match p? with
  | none => start b
  | some p =>
    if p.low ≤ b ∧ b ≤ p.high then
      let value := p.value * 0x40 + b.toNat % 0x40
      if p.missing ≤ 1 then ([Char.ofNat value], none)
      else ([], some ⟨p.missing - 1, value, 0x80, 0xbf⟩)
    else
      let (cs, next) := start b
      (replacement :: cs, next)

/-- The characters of some bytes that follow an unfinished character, or none. -/
def decodeFrom : Option Partial → List UInt8 → List Char
  | none, [] => []
  | some _, [] => [replacement]
  | p?, b :: bs => (step p? b).1 ++ decodeFrom (step p? b).2 bs

/-- The text of some bytes. -/
def decode (bytes : ByteArray) : String := String.ofList (decodeFrom none bytes.toList)

end GoRepl.Text.Lossy
