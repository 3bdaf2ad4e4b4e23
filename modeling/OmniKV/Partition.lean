import OmniKV.Relay

/-!
# Partition

The central actor with a table of partitions. It is meant to drop the messages between two ports that
are partitioned, but the `continue` for a matching entry goes on with the next entry, so the table is
read and nothing comes of it.

* `partition_iff` — the table is respected only by messages it does not concern.
* `run_eq_sends` — the central actor of the relay does what this one does, with any table.
-/

namespace OmniKV
namespace Partition

variable {P : Type}

/-- A message that comes to the central actor, with the channels registered when it is checked, when it
is looked up, and at the retries that there is time for. -/
structure Arrival where
  msg : Parcel
  atCheck : Nat → Option Nat
  atLook : Nat → Option Nat
  atRetries : List (Nat → Option Nat)

/-- The loop that looks for the channel of the destination, until there is one or 5 s are over. -/
def look (msg : Parcel) (views : List (Nat → Option Nat)) (sent : List (Parcel × Nat)) :
    List (Parcel × Nat) := Id.run do
  let mut sends := sent
  for outChannels in views do
    if let some sender := outChannels msg.toPort then
      sends := sends ++ [(msg, sender)]
      break
  return sends

/-- What the central actor sends, and on which channels. -/
def run (partitions : List (Nat × Nat × P)) (arrivals : List Arrival) : List (Parcel × Nat) :=
  Id.run do
    let mut sends := []
    for ⟨msg, atCheck, atLook, atRetries⟩ in arrivals do
      for (fromPort, toPort, _probability) in partitions do
        if fromPort = msg.fromPort ∧ toPort = msg.toPort then
          continue
      if (atCheck msg.toPort).isNone then
        continue
      sends := look msg (atLook :: atRetries) sends
    return sends

/-! ## What it should do -/

/-- The table has an entry for the ports of the message. -/
def Arrival.Listed (partitions : List (Nat × Nat × P)) (a : Arrival) : Prop :=
  ∃ entry ∈ partitions, entry.1 = a.msg.fromPort ∧ entry.2.1 = a.msg.toPort

/-- A channel for the destination is registered, at the check and when it is looked up. -/
def Arrival.Registered (a : Arrival) : Prop :=
  (a.atCheck a.msg.toPort).isSome ∧
    ∃ outChannels ∈ a.atLook :: a.atRetries, (outChannels a.msg.toPort).isSome

instance decidableListed (partitions : List (Nat × Nat × P)) (a : Arrival) :
    Decidable (a.Listed partitions) :=
  inferInstanceAs (Decidable (∃ _ ∈ _, _))

instance decidableRegistered (a : Arrival) : Decidable a.Registered :=
  inferInstanceAs (Decidable (_ ∧ _))

/-- What is forwarded are the messages without an entry whose destination has a channel. -/
def Respected (partitions : List (Nat × Nat × P)) (arrivals : List Arrival) : Prop :=
  (run partitions arrivals).map Prod.fst =
    (arrivals.filter fun a => a.Registered ∧ ¬a.Listed partitions).map Arrival.msg

/-! ## What it does -/

/-- The channel a message is sent on. -/
def Arrival.channel (a : Arrival) : Option Nat :=
  if (a.atCheck a.msg.toPort).isNone then none
  else (a.atLook :: a.atRetries).findSome? fun outChannels => outChannels a.msg.toPort

theorem look_eq (msg : Parcel) (views : List (Nat → Option Nat)) (sent : List (Parcel × Nat)) :
    look msg views sent = sent ++ ((views.findSome? fun outChannels => outChannels msg.toPort).map
      fun k => (msg, k)).toList := by
  induction views with
  | nil => simp [look]
  | cons outChannels views ih =>
    cases hsender : outChannels msg.toPort with
    | some sender => simp [look, hsender]
    | none => simpa [look, hsender] using ih

/-- The loop over the table leaves nothing behind. -/
theorem run_eq (partitions : List (Nat × Nat × P)) (arrivals : List Arrival) :
    run partitions arrivals = arrivals.filterMap fun a => a.channel.map fun k => (a.msg, k) := by
  have hloop : ∀ sent, (forIn arrivals sent fun a sends =>
      if a.atCheck a.msg.toPort = none then (pure (ForInStep.yield sends) : Id _)
      else pure (ForInStep.yield (look a.msg (a.atLook :: a.atRetries) sends))).run =
      sent ++ arrivals.filterMap fun a => a.channel.map fun k => (a.msg, k) := by
    induction arrivals with
    | nil => simp
    | cons a arrivals ih =>
      intro sent
      have hchannel : a.channel = if a.atCheck a.msg.toPort = none then none else
          (a.atLook :: a.atRetries).findSome? fun outChannels => outChannels a.msg.toPort := by
        simp only [Arrival.channel, Option.isNone_iff_eq_none]
      rw [List.forIn_cons, List.filterMap_cons, hchannel]
      by_cases hcheck : a.atCheck a.msg.toPort = none
      · simpa [hcheck] using ih sent
      · have hlook := look_eq a.msg (a.atLook :: a.atRetries) sent
        simp only [if_neg hcheck, pure_bind]
        rw [hlook, ih]
        cases (a.atLook :: a.atRetries).findSome? fun outChannels => outChannels a.msg.toPort with
        | none => simp
        | some k => simp
  simpa [run] using hloop []

theorem channel_isSome (a : Arrival) : a.channel.isSome ↔ a.Registered := by
  unfold Arrival.channel Arrival.Registered
  cases hcheck : a.atCheck a.msg.toPort with
  | none => simp
  | some k => simp [List.findSome?_isSome_iff]

theorem run_map_fst (partitions : List (Nat × Nat × P)) (arrivals : List Arrival) :
    (run partitions arrivals).map Prod.fst =
      (arrivals.filter fun a => a.Registered).map Arrival.msg := by
  rw [run_eq]
  induction arrivals with
  | nil => rfl
  | cons a arrivals ih =>
    cases hchannel : a.channel with
    | none =>
      have hnot : ¬a.Registered := by simp [← channel_isSome, hchannel]
      simpa [hchannel, hnot] using ih
    | some k =>
      have hreg : a.Registered := by simp [← channel_isSome, hchannel]
      simpa [hchannel, hreg] using ih

/-- Where the channels stay the same, it takes one for the destination. -/
theorem registered_iff {channels : Nat → Option Nat} {m : Parcel} {n : Nat} :
    Arrival.Registered ⟨m, channels, channels, List.replicate n channels⟩ ↔
      (channels m.toPort).isSome := by
  rw [Arrival.Registered, and_iff_left_iff_imp]
  exact fun h => ⟨channels, List.mem_cons_self, h⟩

/-- The table is respected if and only if it has no entry for a message whose destination has a
channel. -/
theorem partition_iff (partitions : List (Nat × Nat × P)) (arrivals : List Arrival) :
    Respected partitions arrivals ↔
      ∀ a ∈ arrivals, a.Registered → ¬a.Listed partitions := by
  have hfilter : (arrivals.filter fun a => a.Registered ∧ ¬a.Listed partitions) =
      (arrivals.filter fun a => a.Registered).filter fun a => ¬a.Listed partitions := by
    rw [List.filter_filter]
    exact List.filter_congr fun a _ => by simp [and_comm]
  rw [Respected, run_map_fst, hfilter]
  constructor
  · intro h a ha hreg
    have hlength := congrArg List.length h
    rw [List.length_map, List.length_map, eq_comm, List.length_filter_eq_length_iff] at hlength
    simpa using hlength a (List.mem_filter.mpr ⟨ha, by simpa using hreg⟩)
  · intro h
    have hself : ((arrivals.filter fun a => a.Registered).filter fun a => ¬a.Listed partitions) =
        arrivals.filter fun a => a.Registered := by
      refine List.filter_eq_self.mpr fun a ha => ?_
      obtain ⟨ha, hreg⟩ := List.mem_filter.mp ha
      simpa using h a ha (by simpa using hreg)
    rw [hself]

/-- A message between two partitioned ports, on a channel. -/
theorem partitioned_forwarded : ¬Respected [(8012, 8021, 1)]
    [⟨⟨0, 8012, 8021, [], false⟩, fun _ => some 0, fun _ => some 0, []⟩] := by
  intro h
  have hlength := congrArg List.length h
  revert hlength
  decide

/-! ## The relay -/

open Relay (Event Step)

/-- The message the central actor takes from its queue. -/
def taken (t : Machine.Transition Relay Event) : List Parcel :=
  match t.event with
  | .recv m => [m]
  | _ => []

/-- The messages that are done with, each with the channels the relay had for it, and what is known of
the one in hand. -/
structure Decides (s : Relay) (arrivals : List Arrival) : Prop where
  sends : (arrivals.filterMap fun a => a.channel.map fun k => (a.msg, k)) = s.sends
  trying : ∀ m, s.central = .trying m → ∃ atCheck : Nat → Option Nat, (atCheck m.toPort).isSome
  sending : ∀ m k, s.central = .sending m k → ∃ atCheck atLook : Nat → Option Nat,
    (atCheck m.toPort).isSome ∧ atLook m.toPort = some k

variable {mapping : Nat → Option Nat} {capacity centralCapacity : Nat} {s s' : Relay} {e : Event}

/-- The central actor is done with a message. -/
theorem Decides.done {arrivals : List Arrival} (h : Decides s arrivals) (a : Arrival)
    (hs' : s'.central = .idle) (hsends : s'.sends = s.sends ++
      (a.channel.map fun k => (a.msg, k)).toList) : Decides s' (arrivals ++ [a]) where
  sends := by
    rw [List.filterMap_append, h.sends, hsends]
    cases hchannel : a.channel with
    | none => simp [hchannel]
    | some k => simp [hchannel]
  trying m hm := by simp [hs'] at hm
  sending m k hm := by simp [hs'] at hm

theorem Decides.step {arrivals : List Arrival} (h : Decides s arrivals)
    (hs : Step mapping capacity centralCapacity s e s') :
    ∃ more, Decides s' (arrivals ++ more) ∧ more.map Arrival.msg ++ s'.central.parcels =
      s.central.parcels ++ taken ⟨s, e, s'⟩ := by
  cases hs with
  | @recv m rest hidle hqueue =>
    refine ⟨[], ?_, by simp [taken, hidle, Central.parcels]⟩
    rw [List.append_nil]
    exact ⟨h.sends, by simp, by simp⟩
  | @skip m hcentral hnone =>
    refine ⟨[⟨m, s.outChannels, s.outChannels, []⟩], h.done _ rfl ?_, ?_⟩
    · simp [Arrival.channel, hnone]
    · simp [taken, hcentral, Central.parcels]
  | @check m hcentral hsome =>
    refine ⟨[], ?_, by simp [taken, hcentral, Central.parcels]⟩
    rw [List.append_nil]
    refine ⟨h.sends, fun m' hm => ?_, by simp⟩
    cases hm
    exact ⟨s.outChannels, hsome⟩
  | @look m k hcentral hsome =>
    refine ⟨[], ?_, by simp [taken, hcentral, Central.parcels]⟩
    rw [List.append_nil]
    refine ⟨h.sends, by simp, fun m' k' hm => ?_⟩
    obtain ⟨atCheck, hcheck⟩ := h.trying m hcentral
    cases hm
    exact ⟨atCheck, s.outChannels, hcheck, hsome⟩
  | @giveUp m hcentral hnone =>
    obtain ⟨atCheck, hcheck⟩ := h.trying m hcentral
    refine ⟨[⟨m, atCheck, s.outChannels, []⟩], h.done _ rfl ?_, ?_⟩
    · simp [Arrival.channel, hnone]
    · simp [taken, hcentral, Central.parcels]
  | @send m k hcentral =>
    obtain ⟨atCheck, atLook, hcheck, hlook⟩ := h.sending m k hcentral
    refine ⟨[⟨m, atCheck, atLook, []⟩], h.done _ rfl ?_, ?_⟩
    · have hne : atCheck m.toPort ≠ none := Option.isSome_iff_ne_none.mp hcheck
      simp [Arrival.channel, hne, hlook]
    · simp [taken, hcentral, Central.parcels]
  | _ =>
    refine ⟨[], ?_, (List.append_nil _).symm⟩
    rw [List.append_nil]
    exact ⟨h.sends, h.trying, h.sending⟩

/-- The relay sends what the central actor sends with any table, for the messages it has taken and the
channels it had. -/
theorem run_eq_sends {tr : List (Machine.Transition Relay Event)}
    (hrun : (Relay.machine mapping capacity centralCapacity).Run tr s) :
    ∃ arrivals, arrivals.map Arrival.msg ++ s.central.parcels = tr.flatMap taken ∧
      ∀ partitions : List (Nat × Nat × P), run partitions arrivals = s.sends := by
  have hdecides : ∃ arrivals, Decides s arrivals ∧
      arrivals.map Arrival.msg ++ s.central.parcels = tr.flatMap taken := by
    induction hrun with
    | nil hinit =>
      rw [hinit]
      exact ⟨[], ⟨rfl, nofun, nofun⟩, rfl⟩
    | snoc _ hs ih =>
      obtain ⟨arrivals, hdec, htaken⟩ := ih
      obtain ⟨more, hdec', hmore⟩ := hdec.step hs
      refine ⟨arrivals ++ more, hdec', ?_⟩
      rw [List.map_append, List.append_assoc, hmore, ← List.append_assoc, htaken,
        List.flatMap_append, List.flatMap_singleton]
  obtain ⟨arrivals, hdec, htaken⟩ := hdecides
  exact ⟨arrivals, htaken, fun partitions => by rw [run_eq, hdec.sends]⟩

end Partition
end OmniKV
