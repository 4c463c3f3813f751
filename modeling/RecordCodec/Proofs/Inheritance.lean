import RecordCodec.Proofs.Merging

set_option autoImplicit false

/-!
# Settings along chains of nested records

A record that is nested in another one gets the settings that it does not give itself from the
configuration of the other one, if that is recursive. Whether it is may come from further out. Along
a chain of records a setting therefore comes from the nearest record that gives it, if all
configurations from there on are recursive, and from nowhere otherwise.
-/
namespace RecordCodec

open Compile

variable {I O : Type}

/-- Records, the outermost first, that sessions compile inside one another: a caller sets something
for the first one, and each other one compiles as nested in the one before. -/
structure NestingChain (cx : Context I O) (overrides : Config) (n : Nat) where
  name : Nat → String
  record : Nat → RecordType
  /-- What the records compile under. -/
  config : Nat → Config
  declared : ∀ i ≤ n, cx.schema.record? (name i) = some (record i)
  outermost : config 0 = overrides.overlay (record 0).ownConfig
  nested : ∀ i < n, ∃ s s', s.config = config i ∧
    Gives (nestedConfig cx (name (i + 1))) s (config (i + 1)) s'

namespace NestingChain

variable {cx : Context I O} {overrides : Config} {n : Nat} (chain : NestingChain cx overrides n)

/-- A record's own settings, together with those of the caller if it is the outermost one. -/
def own : Nat → Config
  | 0 => overrides.overlay (chain.record 0).ownConfig
  | i + 1 => (chain.record (i + 1)).ownConfig

/-- The record at `i` is the last one up to `k` that gives the setting. -/
structure Nearest (setting : Setting) (i k : Nat) : Prop where
  le : i ≤ k
  given : (setting.given (chain.own i)).isSome
  last : ∀ j, i < j → j ≤ k → setting.given (chain.own j) = none

/-- All configurations from the one at `i` to the one before `k` are recursive. -/
def HandsDown (i k : Nat) : Prop := ∀ j, i ≤ j → j < k → (chain.config j).isRecursive = true

variable {chain} {setting : Setting} {i k : Nat}

theorem config_succ (inside : k < n) :
    chain.config (k + 1) = (chain.own (k + 1)).inherit (chain.config k) := by
  obtain ⟨s, s', same, gives⟩ := chain.nested k inside
  obtain ⟨r, found, isConfig, -⟩ := gives_nestedConfig_iff.1 gives
  cases (chain.declared (k + 1) inside).symm.trans found
  rw [isConfig, same]
  rfl

theorem nearest_self (given : (setting.given (chain.own k)).isSome) :
    chain.Nearest setting i k ↔ i = k := by
  constructor
  · intro nearest
    refine (Nat.lt_or_eq_of_le nearest.le).elim (fun before => ?_) id
    rw [nearest.last k before (Nat.le_refl k)] at given
    cases given
  · rintro rfl
    exact ⟨Nat.le_refl i, given, fun j after upTo => absurd after (Nat.not_lt.2 upTo)⟩

theorem nearest_succ (silent : setting.given (chain.own (k + 1)) = none) :
    chain.Nearest setting i (k + 1) ↔ chain.Nearest setting i k := by
  constructor
  · intro nearest
    have other : i ≠ k + 1 := by
      rintro rfl
      simpa [silent] using nearest.given
    exact ⟨by have := nearest.le; omega, nearest.given,
      fun j after upTo => nearest.last j after (Nat.le_succ_of_le upTo)⟩
  · intro nearest
    refine ⟨Nat.le_succ_of_le nearest.le, nearest.given, fun j after upTo => ?_⟩
    rcases Nat.le_succ_iff.1 upTo with before | rfl
    · exact nearest.last j after before
    · exact silent

theorem handsDown_self : chain.HandsDown k k := fun _ from_ before => by omega

theorem handsDown_succ (le : i ≤ k) :
    chain.HandsDown i (k + 1) ↔ chain.HandsDown i k ∧ (chain.config k).isRecursive = true := by
  constructor
  · intro down
    exact ⟨fun j from_ before => down j from_ (by omega), down k le (Nat.lt_succ_self k)⟩
  · rintro ⟨down, recursive⟩ j from_ before
    rcases Nat.lt_succ_iff_lt_or_eq.1 before with earlier | rfl
    · exact down j from_ earlier
    · exact recursive

theorem given_config_eq_some_iff (inside : k ≤ n) {value : setting.Value} :
    setting.given (chain.config k) = some value ↔
      ∃ i, chain.Nearest setting i k ∧ chain.HandsDown i k ∧
        setting.given (chain.own i) = some value := by
  induction k with
  | zero =>
    rw [show chain.config 0 = chain.own 0 from chain.outermost]
    constructor
    · intro given
      exact ⟨0, (nearest_self (by simp [given])).2 rfl, handsDown_self, given⟩
    · rintro ⟨i, nearest, -, given⟩
      rwa [Nat.le_zero.1 nearest.le] at given
  | succ k ih =>
    have before := ih (by omega)
    rw [config_succ inside, Setting.given_inherit]
    cases own : setting.given (chain.own (k + 1)) with
    | some word =>
      have nearest (i : Nat) : chain.Nearest setting i (k + 1) ↔ i = k + 1 :=
        nearest_self (by simp [own])
      simp only [nearest, exists_eq_left, handsDown_self, own, true_and, Option.some_or, ite_self]
    | none =>
      simp only [nearest_succ own, Option.none_or]
      split
      case isTrue recursive =>
        rw [before]
        refine exists_congr fun i => and_congr_right fun nearest => ?_
        simp only [handsDown_succ nearest.le, recursive, and_true]
      case isFalse alone =>
        simp only [reduceCtorEq, false_iff, not_exists, not_and]
        intro i nearest down
        exact absurd ((handsDown_succ nearest.le).1 down).2 alone

/-- Records that were declared pass their checks wherever they are nested, if the outermost one
does. -/
theorem checkConfig_config (declarations : cx.schema.Declared)
    (first : (chain.record 0).checkConfig overrides = .ok ()) (inside : k ≤ n) :
    (chain.record k).checkConfig (chain.config k) = .ok () := by
  induction k with
  | zero =>
    have own := (declarations.checked (chain.declared 0 inside)).2.2.config
    rw [chain.outermost]
    exact Config.check_eq_ok_iff.2 ((Config.check_eq_ok_iff.1 first).overlay own)
  | succ k ih =>
    obtain ⟨s, s', same, gives⟩ := chain.nested k inside
    have outer : (chain.record k).checkConfig s.config = .ok () := by
      rw [same]
      exact ih (by omega)
    obtain ⟨r, found, passes⟩ := checkConfig_of_nestedConfig declarations outer gives
    cases (chain.declared (k + 1) inside).symm.trans found
    exact passes

variable (chain)

/-- The settings of the innermost record come from the nearest record that gives them, through
recursive configurations only, and its aliases and its discriminator from itself. -/
theorem settings_of_nearest :
    (∀ setting i, chain.Nearest setting i n → chain.HandsDown i n →
        setting.given (chain.config n) = setting.given (chain.own i)) ∧
      (∀ setting, (¬∃ i, chain.Nearest setting i n ∧ chain.HandsDown i n) →
        setting.given (chain.config n) = none) ∧
      (chain.config n).decodeAliases = (chain.own n).decodeAliases ∧
      (chain.config n).encodeAliases = (chain.own n).encodeAliases ∧
      (chain.config n).discriminator = (chain.own n).discriminator := by
  refine ⟨fun setting i nearest down => ?_, fun setting nowhere => ?_, ?_⟩
  · obtain ⟨value, given⟩ := Option.isSome_iff_exists.1 nearest.given
    rw [given]
    exact (given_config_eq_some_iff (Nat.le_refl n)).2 ⟨i, nearest, down, given⟩
  · cases given : setting.given (chain.config n) with
    | none => rfl
    | some value =>
      obtain ⟨i, nearest, down, -⟩ := (given_config_eq_some_iff (Nat.le_refl n)).1 given
      exact absurd ⟨i, nearest, down⟩ nowhere
  · cases n with
    | zero =>
      rw [show chain.config 0 = chain.own 0 from chain.outermost]
      exact ⟨rfl, rfl, rfl⟩
    | succ k =>
      rw [config_succ (Nat.lt_succ_self k)]
      exact Config.locals_inherit _ _

end NestingChain

namespace Fleets

def records : Nat → RecordType
  | 0 => fleet
  | 1 => truck
  | 2 => crate
  | _ => label

def configs : Nat → Config
  | 0 => Config.overlay {} fleet.ownConfig
  | i + 1 => (records (i + 1)).ownConfig.inherit (configs i)

theorem record?_records (i : Nat) : context.schema.record? (records i).name = some (records i) := by
  match i with
  | 0 | 1 | 2 | _ + 3 => rfl

/-- Labels on the crates on the trucks of a fleet. -/
def chain (n : Nat) : NestingChain context {} n where
  name i := (records i).name
  record := records
  config := configs
  declared i _ := record?_records i
  outermost := rfl
  nested i _ := ⟨{ config := configs i }, _, rfl,
    gives_nestedConfig_iff.2 ⟨_, record?_records (i + 1), rfl, rfl⟩⟩

end Fleets

/-- Crates get what the fleet and the trucks give, and labels get nothing from crates. -/
theorem NestingChain.settings_of_nearest_fleet :
    ((Fleets.chain 2).config 2).encodeCasing = some .camel ∧
      ((Fleets.chain 2).config 2).omitNone = some false ∧
      ((Fleets.chain 3).config 3).encodeCasing = none ∧
      ((Fleets.chain 2).config 2).discriminator = none := by
  have down : (Fleets.chain 2).HandsDown 0 2 := fun
    | 0, _, _ | 1, _, _ => rfl
  have fromFleet : (Fleets.chain 2).Nearest .encodeCasing 0 2 :=
    ⟨by decide, rfl, fun | 1, _, _ | 2, _, _ => rfl⟩
  have fromTruck : (Fleets.chain 2).Nearest .omitNone 1 2 :=
    ⟨by decide, rfl, fun | 2, _, _ => rfl⟩
  have nowhere : ¬∃ i, (Fleets.chain 3).Nearest .encodeCasing i 3 ∧
      (Fleets.chain 3).HandsDown i 3 := by
    rintro ⟨i, nearest, down⟩
    rcases Nat.le_succ_iff.1 nearest.le with before | rfl
    · cases down 2 before (by decide)
    · cases nearest.given
  obtain ⟨nearest, -, -, -, discriminator⟩ := (Fleets.chain 2).settings_of_nearest
  exact ⟨nearest .encodeCasing 0 fromFleet down,
    nearest .omitNone 1 fromTruck fun j from_ before => down j (by omega) before,
    (Fleets.chain 3).settings_of_nearest.2.1 .encodeCasing nowhere, discriminator⟩

end RecordCodec
