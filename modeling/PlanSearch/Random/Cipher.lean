/-!
# The keystream of a twelve-round block cipher

ChaCha reduced to twelve rounds, with a 256-bit key, a 64-bit block counter that starts at zero and
a 64-bit stream number that stays zero. The stream is a function from positions to words: no word
depends on which words were read before it.
-/

namespace PlanSearch.Random

/-- Eight words that select a keystream. -/
abbrev Key := Vector UInt32 8

namespace Cipher

/-- The sixteen words a block is computed on. -/
abbrev Block := Vector UInt32 16

/-- Rotation to the left, by less than 32 places. -/
def rotate (x : UInt32) (by_ : UInt32) : UInt32 :=
  (x <<< by_) ||| (x >>> (32 - by_))

/-- Adds, mixes and rotates four words of the block. -/
def quarter (s : Block) (a b c d : Fin 16) : Block :=
  let wa := s[a] + s[b]
  let wd := rotate (s[d] ^^^ wa) 16
  let wc := s[c] + wd
  let wb := rotate (s[b] ^^^ wc) 12
  let wa := wa + wb
  let wd := rotate (wd ^^^ wa) 8
  let wc := wc + wd
  let wb := rotate (wb ^^^ wc) 7
  (((s.set a wa).set b wb).set c wc).set d wd

/-- One round over the columns and one over the diagonals. -/
def doubleRound (s : Block) : Block :=
  let s := quarter s 0 4 8 12
  let s := quarter s 1 5 9 13
  let s := quarter s 2 6 10 14
  let s := quarter s 3 7 11 15
  let s := quarter s 0 5 10 15
  let s := quarter s 1 6 11 12
  let s := quarter s 2 7 8 13
  quarter s 3 4 9 14

/-- The block before the rounds: the constants, the key, the counter and the stream number. -/
def seedBlock (key : Key) (counter : UInt64) : Block :=
  #v[0x61707865, 0x3320646e, 0x79622d32, 0x6b206574,
    key[0], key[1], key[2], key[3], key[4], key[5], key[6], key[7],
    counter.toUInt32, (counter >>> 32).toUInt32, 0, 0]

/-- The block with the given number. -/
def block (key : Key) (counter : UInt64) : Block :=
  let start := seedBlock key counter
  let mixed := (List.range 6).foldl (fun s _ => doubleRound s) start
  mixed.zipWith (· + ·) start

/-- The word at a position of the keystream. -/
def word (key : Key) (position : Nat) : UInt32 :=
  (block key (position / 16).toUInt64).get ⟨position % 16, Nat.mod_lt _ (by decide)⟩

end Cipher

end PlanSearch.Random
