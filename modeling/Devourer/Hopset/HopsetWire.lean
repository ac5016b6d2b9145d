-- What an authority remembers of the proposals that it accepted.
import Devourer.Lib.RingBuffer
import Devourer.Hopset.HopsetTypes

namespace devourer.hopset

abbrev ProposalReplayRing := RingBuffer UInt64 16

namespace ProposalReplayRing

def fresh : ProposalReplayRing := RingBuffer.empty 16 0

def pack (epoch nonce : UInt32) : UInt64 := epoch.toUInt64 <<< 32 ||| nonce.toUInt64

theorem pack_toNat (epoch nonce : UInt32) :
    (pack epoch nonce).toNat = 4294967296 * epoch.toNat + nonce.toNat := by
  have he : epoch.toNat < 2 ^ 32 := epoch.toNat_lt
  have hn : nonce.toNat < 2 ^ 32 := nonce.toNat_lt
  have hby : UInt64.toNat 32 % 64 = 32 := rfl
  have hlt : epoch.toNat * 2 ^ 32 < 2 ^ 64 := by omega
  have hshift : (epoch.toUInt64 <<< 32).toNat = epoch.toNat <<< 32 := by
    rw [UInt64.toNat_shiftLeft, hby, UInt32.toNat_toUInt64, Nat.shiftLeft_eq, Nat.mod_eq_of_lt hlt]
  rw [pack, UInt64.toNat_or, hshift, UInt32.toNat_toUInt64, ← Nat.shiftLeft_add_eq_or_of_lt hn,
    Nat.shiftLeft_eq, Nat.mul_comm]

/-- The pair can be read off its packing. -/
theorem pack_inj {e e' n n' : UInt32} (h : pack e n = pack e' n') : e = e' ∧ n = n' := by
  have hnat := congrArg UInt64.toNat h
  rw [pack_toNat, pack_toNat] at hnat
  have hn : n.toNat < 2 ^ 32 := n.toNat_lt
  have hn' : n'.toNat < 2 ^ 32 := n'.toNat_lt
  constructor
  · apply UInt32.toNat_inj.mp
    omega
  · apply UInt32.toNat_inj.mp
    omega

def contains (r : ProposalReplayRing) (epoch nonce : UInt32) : Bool :=
  RingBuffer.contains r (pack epoch nonce)

def remember (r : ProposalReplayRing) (epoch nonce : UInt32) : ProposalReplayRing :=
  RingBuffer.remember r (pack epoch nonce)

end ProposalReplayRing

end devourer.hopset
