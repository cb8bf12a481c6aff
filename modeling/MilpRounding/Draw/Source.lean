import MilpRounding.Draw.Twister
import MilpRounding.Scalar.Binary64

namespace MilpRounding.Draw

structure Source (α σ : Type) where
  unit : StateM σ α
  coin : StateM σ Bool

def Source.uniform {α σ : Type} [Scalar α] (source : Source α σ) (low high : α) : StateM σ α := do
  pure (low + (high - low) * (← source.unit))

def twisterUnit : StateM Twister Float := fun t =>
  let (a, t) := t.next
  let (b, t) := t.next
  (((a >>> 5).toNat.toFloat * 67108864.0 + (b >>> 6).toNat.toFloat) *
    (1.0 / 9007199254740992.0), t)

/-- The highest bit of a sequence of words is a linear recurrence of order 19937, so this many words
in a row cannot all have it set. -/
def coinLimit : Nat := 19938

def flipCoin : Nat → StateM Twister Bool
  | 0, t => (false, t)
  | left + 1, t =>
    let (w, t) := t.next
    if w >>> 30 < 2 then (w >>> 30 = 1, t) else flipCoin left t

def twister : Source Float Twister := ⟨twisterUnit, flipCoin coinLimit⟩

end MilpRounding.Draw
