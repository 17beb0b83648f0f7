/-!
# Sources of random numbers

A source gives one number in `[0, 1)` and can be split into any number of new sources. Whoever needs
several numbers splits, so a computation that draws them keeps no state and its parts can be looked
at one by one. Any bits may come out at any place, and `RandomSource.ofSeed` is only one way to
choose them.
-/

namespace Calculator

/-- The random bits of a source and of the sources that it splits into, each found by the numbers of
the splits that lead to it. -/
structure RandomSource where
  word : List Nat → UInt64

namespace RandomSource

/-- The source with number `i` of those that a source splits into. -/
def child (source : RandomSource) (i : Nat) : RandomSource :=
  ⟨fun path => source.word (i :: path)⟩

/-- The number a source gives: the upper 53 of its bits, as many as a significand has, behind the
binary point. -/
def draw (source : RandomSource) : Float :=
  (source.word [] >>> 11).toFloat / 9007199254740992

/-! ## Seeds -/

/-- Spreads every bit of a word over all of them. -/
def scramble (word : UInt64) : UInt64 :=
  let word := (word ^^^ (word >>> 30)) * 0xbf58476d1ce4e5b9
  let word := (word ^^^ (word >>> 27)) * 0x94d049bb133111eb
  word ^^^ (word >>> 31)

/-- The seed of the source with number `i` of those that the source of a seed splits into. -/
def childSeed (seed : UInt64) (i : Nat) : UInt64 :=
  scramble (seed + 0x9e3779b97f4a7c15 * UInt64.ofNat (i + 1))

/-- The source whose bits are scrambled seeds. -/
def ofSeed (seed : UInt64) : RandomSource :=
  ⟨fun path => scramble (path.foldl childSeed seed)⟩

end RandomSource

end Calculator
