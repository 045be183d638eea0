import OutboxKit.Lib.Scramble
import OutboxKit.Backoff

/-! Jitter seeds: the hash of the event id and a clock term, folded through a
64-bit finalizer. The hasher's algorithm is a parameter; nothing here depends on it. -/
namespace OutboxKit
open Scramble

def rotateLeft (x : UInt64) (n : ℕ) : UInt64 := ⟨x.toBitVec.rotateLeft n⟩

/-- The `SplitMix64` finalizer. -/
def mix64 (x : UInt64) : UInt64 :=
  let x := x+0x9E3779B97F4A7C15
  let x := (x^^^(x >>> 30))*0xBF58476D1CE4E5B9
  let x := (x^^^(x >>> 27))*0x94D049BB133111EB
  x^^^(x >>> 31)

/-- The clock's share of a seed: nanoseconds within the second, folded with the seconds since
the epoch; a clock before the epoch counts as zero. -/
def clockTerm : Option Duration → UInt64
  | none => 0
  | some d => UInt64.ofNat (d.val%1000000000)^^^UInt64.ofNat (d.val/1000000000)

def seedOf (idTerm clockTerm : UInt64) : UInt64 :=
  mix64 (rotateLeft idTerm 32^^^mix64 clockTerm)

/-- `seed_for`, with the hash of the id and the time since the epoch it reads. -/
def seedFor (hash : EventId → UInt64) (now : Option Duration) (id : EventId) : UInt64 :=
  seedOf (hash id) (clockTerm now)

theorem mix64_bijective : Function.Bijective mix64 := by
  have hfirst : Function.Bijective fun x : BitVec 64 => x^^^(x >>> 30) :=
    xor_shift_bijective (by norm_num)
  have hsecond : Function.Bijective fun x : BitVec 64 => x^^^(x >>> 27) :=
    xor_shift_bijective (by norm_num)
  have hlast : Function.Bijective fun x : BitVec 64 => x^^^(x >>> 31) :=
    xor_shift_bijective (by norm_num)
  have hmulFirst : Function.Bijective fun x : BitVec 64 => x*0xBF58476D1CE4E5B9#64 :=
    mul_odd_bijective (by decide)
  have hmulSecond : Function.Bijective fun x : BitVec 64 => x*0x94D049BB133111EB#64 :=
    mul_odd_bijective (by decide)
  have hsteps := hlast.comp (hmulSecond.comp (hsecond.comp (hmulFirst.comp
    (hfirst.comp (add_bijective 0x9E3779B97F4A7C15#64)))))
  exact bijective_of_toBitVec (fun _ => rfl) hsteps

theorem rotateLeft_bijective : Function.Bijective fun x => rotateLeft x 32 :=
  bijective_of_toBitVec (fun _ => rfl) (rotate_half_bijective (w := 64) (n := 32) rfl)

theorem xor_word_bijective (c : UInt64) : Function.Bijective fun x => x^^^c :=
  bijective_of_toBitVec (fun _ => rfl) (xor_bijective c.toBitVec)

theorem seedOf_bijective (clock : UInt64) : Function.Bijective fun idTerm => seedOf idTerm clock :=
  mix64_bijective.comp ((xor_word_bijective (mix64 clock)).comp rotateLeft_bijective)

theorem seedOf_clock_injective (idTerm : UInt64) : Function.Injective (seedOf idTerm) := by
  intro c d h
  apply mix64_bijective.injective
  have hxor := mix64_bijective.injective h
  apply (xor_word_bijective (rotateLeft idTerm 32)).injective
  change mix64 c^^^rotateLeft idTerm 32 = mix64 d^^^rotateLeft idTerm 32
  rw [UInt64.xor_comm (mix64 c), UInt64.xor_comm (mix64 d)]
  exact hxor

/-- The derivation loses nothing: seeds of ids read at one instant agree exactly when the
hashes do, and seeds of one id exactly when the clock terms do. -/
theorem seedFor_lossless :
    Function.Bijective mix64 ∧
    (∀ now, Function.Bijective fun idTerm => seedOf idTerm (clockTerm now)) ∧
    (∀ hash now a b, seedFor hash now a = seedFor hash now b ↔ hash a = hash b) ∧
    (∀ hash id now later, seedFor hash now id = seedFor hash later id ↔
      clockTerm now = clockTerm later) := by
  refine ⟨mix64_bijective, fun now => seedOf_bijective (clockTerm now), ?_, ?_⟩
  · intro hash now a b
    exact (seedOf_bijective (clockTerm now)).injective.eq_iff
  · intro hash id now later
    exact (seedOf_clock_injective (hash id)).eq_iff

end OutboxKit
