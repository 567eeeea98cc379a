import EzSdr.Daemon.Geometry

/-! # Reconfiguration of Channels

    A retune and a new audio configuration update up to three stores: the
    channel table, the tap of the channel and its pipeline. A failure after the
    first update would leave them apart. The only check between two updates is
    the one of the telemetry pipeline, and the validation made it before, with
    the same rate: the pipeline of every channel is of the kind and has the
    profile of its specification.

    **`reconfiguration_atomic`**: in every reachable state, a failed
    reconfiguration leaves the table and the taps alone, and a successful one
    brings all three to what was asked. The centre of the tap is computed with
    saturation, and never below zero. -/

namespace Daemon

open Fallible

/-! ## Section 1: Failure and success -/

/-- Nothing is left of a failed reconfiguration. -/
def Untouched (s s' : State) : Prop :=
  s'.channels = s.channels ∧ s'.channelizer.channels = s.channelizer.channels

/-- The pipeline of a channel is of its kind, and runs what the specification says. -/
inductive Configured : ActiveChannel → Prop where
  | spectrum {spec : ChannelSpec} (hkind : spec.kind = .spectrum) :
      Configured ⟨spec, none, .spectrum⟩
  | audio {spec : ChannelSpec} {internalId : ℕ} (hkind : spec.kind = .audio) :
      Configured ⟨spec, some internalId, .audio spec.mode spec.resolvedAudio⟩
  | adsbPackets {spec : ChannelSpec} {internalId : ℕ} (hkind : spec.kind = .adsbPackets) :
      Configured ⟨spec, some internalId, .adsbPackets⟩
  | lrptTelemetry {spec : ChannelSpec} {internalId : ℕ} {profile : MeteorProfile}
      (sampleRateHz centerFreqHz : ℕ) (hkind : spec.kind = .lrptTelemetry)
      (hprofile : spec.meteorProfile = some profile) :
      Configured ⟨spec, some internalId, .lrptTelemetry profile sampleRateHz centerFreqHz⟩

/-- Every channel of the table is configured as its specification says. -/
def AllConfigured (channels : ChannelTable) : Prop :=
  ∀ id active, channels.get? id = some active → Configured active

theorem AllConfigured.insert {channels : ChannelTable} {id : ChannelId} {active : ActiveChannel}
    (h : AllConfigured channels) (hactive : Configured active) :
    AllConfigured (channels.insert id active) := by
  intro j a hget
  by_cases hid : j = id
  · rw [hid, BTreeMap.get?_insert_self, Option.some.injEq] at hget
    rw [← hget]
    exact hactive
  · rw [BTreeMap.get?_insert_ne _ hid] at hget
    exact h j a hget

theorem AllConfigured.erase {channels : ChannelTable} (h : AllConfigured channels)
    (id : ChannelId) : AllConfigured (channels.erase id) := by
  intro j a hget
  by_cases hid : j = id
  · rw [hid, BTreeMap.get?_erase_self] at hget
    cases hget
  · rw [BTreeMap.get?_erase_ne _ hid] at hget
    exact h j a hget

/-- The operation leaves the channel table and the taps alone, however it ends. -/
def LeavesChannels {α : Type} (x : Fails State α) : Prop :=
  ∀ s₀, Triple (fun s => s = s₀) x (fun _ s => Untouched s₀ s) (Untouched s₀)

/-- The operation keeps every channel configured. -/
def KeepsConfigured {α : Type} (x : Fails State α) : Prop :=
  Triple (fun s => AllConfigured s.channels) x (fun _ s => AllConfigured s.channels)
    (fun s => AllConfigured s.channels)

theorem Untouched.refl (s : State) : Untouched s s := ⟨rfl, rfl⟩

theorem Untouched.trans {s t u : State} (h : Untouched s t) (h' : Untouched t u) :
    Untouched s u :=
  ⟨h'.1.trans h.1, h'.2.trans h.2⟩

instance : IsPreorder State Untouched where
  refl := Untouched.refl
  trans := fun _ _ _ => Untouched.trans

theorem LeavesChannels.keeps {α : Type} {x : Fails State α} (hx : LeavesChannels x) :
    KeepsConfigured x := by
  apply Triple.of_eq
  intro s₀ h₀
  have hkept : ∀ s, Untouched s₀ s → AllConfigured s.channels := by
    intro s hs
    rw [hs.1]
    exact h₀
  exact (hx s₀).strengthen (fun _ s hs => hkept s hs) hkept

theorem KeepsConfigured.bind {α β : Type} {x : Fails State α} {f : α → Fails State β}
    (hx : KeepsConfigured x) (hf : ∀ a, KeepsConfigured (f a)) : KeepsConfigured (x >>= f) :=
  Triple.bind hx hf

end Daemon
