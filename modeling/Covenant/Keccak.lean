/-! The hash Keccak-256: a sponge over 25 words of 64 bits that takes in 136 bytes at a time. -/

namespace Covenant.Keccak

/-- The word in column `x` of row `y` stands at `x + 5 * y`. -/
abbrev State := Vector UInt64 25

/-- How far each word turns, by its place. -/
def turns : Vector UInt64 25 :=
  #v[0, 1, 62, 28, 27,
    36, 44, 6, 55, 20,
    3, 10, 43, 25, 39,
    41, 45, 15, 21, 8,
    18, 2, 61, 56, 14]

/-- What each round adds to the first word. -/
def roundConstants : List UInt64 :=
  [0x0000000000000001, 0x0000000000008082, 0x800000000000808A, 0x8000000080008000,
    0x000000000000808B, 0x0000000080000001, 0x8000000080008081, 0x8000000000008009,
    0x000000000000008A, 0x0000000000000088, 0x0000000080008009, 0x000000008000000A,
    0x000000008000808B, 0x800000000000008B, 0x8000000000008089, 0x8000000000008003,
    0x8000000000008002, 0x8000000000000080, 0x000000000000800A, 0x800000008000000A,
    0x8000000080008081, 0x8000000000008080, 0x0000000080000001, 0x8000000080008008]

def rotateLeft (word amount : UInt64) : UInt64 :=
  (word <<< amount) ||| (word >>> (64 - amount))

/-- Mixes each word with the parities of the columns beside its own. -/
def theta (state : State) : State :=
  let parity : Vector UInt64 5 := .ofFn fun x =>
    state[x.val] ^^^ state[x.val + 5] ^^^ state[x.val + 10] ^^^ state[x.val + 15] ^^^ state[x.val + 20]
  let mixed : Vector UInt64 5 := .ofFn fun x =>
    parity[(x.val + 4) % 5] ^^^ rotateLeft parity[(x.val + 1) % 5] 1
  .ofFn fun i => state[i.val] ^^^ mixed[i.val % 5]

/-- Turns each word and moves it to its new place. -/
def rhoPi (state : State) : State :=
  .ofFn fun i =>
    let x := i.val % 5
    let y := i.val / 5
    let origin := (x + 3 * y) % 5 + 5 * x
    rotateLeft state[origin] turns[origin]

/-- Combines each word with the two after it in its row. -/
def chi (state : State) : State :=
  .ofFn fun i =>
    let row := 5 * (i.val / 5)
    state[i.val] ^^^ (~~~state[row + (i.val + 1) % 5] &&& state[row + (i.val + 2) % 5])

def round (state : State) (constant : UInt64) : State :=
  let state := chi (rhoPi (theta state))
  state.set 0 (state[0] ^^^ constant)

def permute (state : State) : State :=
  roundConstants.foldl round state

/-- How many bytes go into the state at a time. -/
def rate : Nat := 136

/-- The number that bytes spell, the lowest first. -/
def littleEndian (bytes : List UInt8) : UInt64 :=
  bytes.foldr (fun byte word => (word <<< 8) ||| byte.toUInt64) 0

/-- The filling that brings a message of `length` bytes to a multiple of the rate. -/
def padding (length : Nat) : List UInt8 :=
  let missing := rate - length % rate
  if missing = 1 then [0x81]
  else 0x01 :: List.replicate (missing - 2) 0x00 ++ [0x80]

/-- Takes one block into the state. -/
def absorb (state : State) (block : List UInt8) : State :=
  let block := block.toArray
  permute <| .ofFn fun i =>
    if i.val < rate / 8 then
      state[i.val] ^^^ littleEndian (block.extract (8 * i.val) (8 * i.val + 8)).toList
    else
      state[i.val]

/-- Takes in `count` blocks, one after another. -/
def absorbAll (state : State) : Nat → List UInt8 → State
  | 0, _ => state
  | count + 1, bytes => absorbAll (absorb state (bytes.take rate)) count (bytes.drop rate)

/-- The bytes of a word, the lowest first. -/
def wordBytes (word : UInt64) : List UInt8 :=
  (List.range 8).map fun i => (word >>> (8 * i).toUInt64).toUInt8

/-- The 32 bytes of the hash. -/
def digest (message : List UInt8) : List UInt8 :=
  let padded := message ++ padding message.length
  let state := absorbAll (.replicate 25 0) (padded.length / rate) padded
  (state.toList.take 4).flatMap wordBytes

end Covenant.Keccak
