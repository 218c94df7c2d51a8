/-!
# UTF-8

Text is a list of characters; what a file or a directory holds is a list of bytes. This module
goes from one to the other.

* `encode` writes characters as bytes, `size` counts those bytes.
* `pieces` reads bytes as a list of characters and faults, a fault being a longest run of bytes
  that opens a character and breaks off. `decode?` refuses faults, `lossy` shows each as `U+FFFD`.
-/

namespace OpacityMigration.Utf8

/-! ## Writing -/

/-- The one to four bytes of a character. -/
def encodeChar (c : Char) : List UInt8 :=
  let n := c.toNat
  if n < 0x80 then [UInt8.ofNat n]
  else if n < 0x800 then [UInt8.ofNat (0xC0 + n / 64), UInt8.ofNat (0x80 + n % 64)]
  else if n < 0x10000 then
    [UInt8.ofNat (0xE0 + n / 4096), UInt8.ofNat (0x80 + n / 64 % 64), UInt8.ofNat (0x80 + n % 64)]
  else
    [UInt8.ofNat (0xF0 + n / 262144), UInt8.ofNat (0x80 + n / 4096 % 64),
      UInt8.ofNat (0x80 + n / 64 % 64), UInt8.ofNat (0x80 + n % 64)]

def encode (text : List Char) : List UInt8 :=
  text.flatMap encodeChar

def size (text : List Char) : Nat :=
  text.foldr (fun c bytes => c.utf8Size + bytes) 0

@[simp] theorem size_nil : size [] = 0 := rfl

@[simp] theorem size_cons (c : Char) (text : List Char) :
    size (c :: text) = c.utf8Size + size text := rfl

@[simp] theorem size_append (a b : List Char) : size (a ++ b) = size a + size b := by
  induction a with
  | nil => simp
  | cons c a ih => simp [ih, Nat.add_assoc]

@[simp] theorem encode_nil : encode [] = [] := rfl

@[simp] theorem encode_cons (c : Char) (text : List Char) :
    encode (c :: text) = encodeChar c ++ encode text := by
  simp [encode]

@[simp] theorem encode_append (a b : List Char) : encode (a ++ b) = encode a ++ encode b := by
  simp [encode]

/-! ## Reading -/

/-- A byte that continues a character. -/
def isContinuation (b : UInt8) : Bool :=
  0x80 ≤ b && b ≤ 0xBF

/-- How many bytes follow the byte `a` in the character it opens; `none` if it opens none. -/
def following? (a : UInt8) : Option Nat :=
  if a < 0x80 then some 0
  else if 0xC2 ≤ a && a ≤ 0xDF then some 1
  else if 0xE0 ≤ a && a ≤ 0xEF then some 2
  else if 0xF0 ≤ a && a ≤ 0xF4 then some 3
  else none

/-- The byte `b` may come right after the opening byte `a`: overlong forms, surrogates and
numbers past the last character are excluded here. -/
def maySucceed (a b : UInt8) : Bool :=
  isContinuation b &&
    (if a = 0xE0 then 0xA0 ≤ b
    else if a = 0xED then b ≤ 0x9F
    else if a = 0xF0 then 0x90 ≤ b
    else if a = 0xF4 then b ≤ 0x8F
    else true)

/-- The part of an opening byte that counts, for a character with `n` bytes to follow. -/
def openingBits (a : UInt8) (n : Nat) : Nat :=
  match n with
  | 0 => a.toNat
  | 1 => a.toNat - 0xC0
  | 2 => a.toNat - 0xE0
  | _ => a.toNat - 0xF0

/-- The character number `n` extended by a continuation byte. -/
def extend (n : Nat) (b : UInt8) : Nat :=
  n * 64 + (b.toNat - 0x80)

/-- Reads `n` continuation bytes onto the number `value`. The second component counts the bytes
read, also when they break off. -/
def readContinuations (value read : Nat) : Nat → List UInt8 → Option Nat × Nat
  | 0, _ => (some value, read)
  | n + 1, b :: rest =>
    if isContinuation b then readContinuations (extend value b) (read + 1) n rest
    else (none, read)
  | _ + 1, [] => (none, read)

/-- The first piece of `a :: rest`, and how many bytes of `rest` belong to it. -/
def firstPiece (a : UInt8) (rest : List UInt8) : Option Char × Nat :=
  match following? a, rest with
  | some 0, _ => (some (Char.ofNat a.toNat), 0)
  | some (n + 1), b :: rest =>
    if maySucceed a b then
      let (value, read) := readContinuations (extend (openingBits a (n + 1)) b) 1 n rest
      (value.map Char.ofNat, read)
    else (none, 0)
  | _, _ => (none, 0)

/-- Reads pieces after the first `skip` bytes, which belong to the piece read last; `done` holds
the pieces so far, newest first. -/
def piecesFrom (done : List (Option Char)) (skip : Nat) : List UInt8 → List (Option Char)
  | [] => done.reverse
  | a :: rest =>
    match skip with
    | skip + 1 => piecesFrom done skip rest
    | 0 =>
      let (piece, used) := firstPiece a rest
      piecesFrom (piece :: done) used rest

/-- The characters of `bytes`, with `none` for each longest run that opens a character and breaks
off. -/
def pieces (bytes : List UInt8) : List (Option Char) :=
  piecesFrom [] 0 bytes

/-- The text that `bytes` are the UTF-8 form of. -/
def decode? (bytes : List UInt8) : Option (List Char) :=
  let found := pieces bytes
  if found.all Option.isSome then some (found.filterMap id) else none

/-- The text of `bytes`, each fault shown as `U+FFFD`. -/
def lossy (bytes : List UInt8) : List Char :=
  (pieces bytes).map (·.getD '\uFFFD')

/-- The text of `bytes` as a string, each fault shown as `U+FFFD`. -/
def lossyString (bytes : List UInt8) : String :=
  String.ofList (lossy bytes)

end OpacityMigration.Utf8
