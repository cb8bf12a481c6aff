namespace MilpRounding.Draw

structure Twister where
  words : Array UInt32
  /-- The word to be given next; at 624 the state is due for renewal. -/
  position : Nat

namespace Twister

def size : Nat := 624

def word (a : Array UInt32) (i : Nat) : UInt32 := a.getD i 0

def fold (w : UInt32) : UInt32 := w ^^^ (w >>> 30)

def initial (seed : UInt32) : Array UInt32 :=
  (List.range (size - 1)).foldl
    (fun a i => a.push (1812433253 * fold (word a i) + UInt32.ofNat (i + 1))) #[seed]

/-- The place after `i`, where the first word takes over the last one at the end of a round. -/
def advance (a : Array UInt32) (i : Nat) : Array UInt32 × Nat :=
  if i + 1 < size then (a, i + 1) else (a.setIfInBounds 0 (word a (size - 1)), 1)

def mixKey (key : List UInt32) : Nat → Array UInt32 × Nat × Nat → Array UInt32 × Nat
  | 0, (a, i, _) => (a, i)
  | left + 1, (a, i, j) =>
    let w := (word a i ^^^ (fold (word a (i - 1)) * 1664525)) + key.getD j 0 + UInt32.ofNat j
    let (b, k) := advance (a.setIfInBounds i w) i
    mixKey key left (b, k, if j + 1 < key.length then j + 1 else 0)

def mixIndex : Nat → Array UInt32 × Nat → Array UInt32
  | 0, (a, _) => a
  | left + 1, (a, i) =>
    let w := (word a i ^^^ (fold (word a (i - 1)) * 1566083941)) - UInt32.ofNat i
    mixIndex left (advance (a.setIfInBounds i w) i)

def ofKey (key : List UInt32) : Twister :=
  let mixed := mixKey key (max size key.length) (initial 19650218, 1, 0)
  ⟨(mixIndex (size - 1) mixed).setIfInBounds 0 0x80000000, size⟩

def digits : Nat → Nat → List UInt32
  | 0, _ => []
  | fuel + 1, n =>
    UInt32.ofNat n :: if n / 2 ^ 32 = 0 then [] else digits fuel (n / 2 ^ 32)

/-- The sign of a seed does not matter. -/
def ofSeed (seed : Int) : Twister :=
  ofKey (digits (seed.natAbs.log2 / 32 + 1) seed.natAbs)

/-- The highest bit of one word with the other bits of the next, times the twist matrix. -/
def twist (upper lower : UInt32) : UInt32 :=
  let y := (upper &&& 0x80000000) ||| (lower &&& 0x7fffffff)
  (y >>> 1) ^^^ (if y &&& 1 = 0 then 0 else 0x9908b0df)

def renew (a : Array UInt32) : Array UInt32 :=
  (List.range size).foldl
    (fun a i => a.setIfInBounds i
      (word a ((i + 397) % size) ^^^ twist (word a i) (word a ((i + 1) % size)))) a

def temper (w : UInt32) : UInt32 :=
  let w := w ^^^ (w >>> 11)
  let w := w ^^^ ((w <<< 7) &&& 0x9d2c5680)
  let w := w ^^^ ((w <<< 15) &&& 0xefc60000)
  w ^^^ (w >>> 18)

def next (t : Twister) : UInt32 × Twister :=
  if t.position < size then (temper (word t.words t.position), ⟨t.words, t.position + 1⟩)
  else
    let words := renew t.words
    (temper (word words 0), ⟨words, 1⟩)

end Twister

end MilpRounding.Draw
