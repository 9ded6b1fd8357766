import FileRoutes.Watch.Batch

/-!
# No change is lost

However sending, closing and the calls for batches fall between each other, every change that
matters is at exactly one place: in a batch that a call has ended with, with the running call, or
in the channel. No change ever overtakes another.

## The model

* `sentBy` — the changes that reach the channel while some things happen.
* `Batch.changes` — the changes that a call ended with.
* `Collector.waiting` — the changes that matter and are in no batch yet.
* `Collector.Sound`, `Collector.Proper` — running calls and batches that hold only what matters.

## What is proved

* `waiting_after` — what one happening does to the changes that matter: those that it sends go to
  the end, those that it hands out are taken from the front.
* `waiting_run` — so do whole runs.
* `proper_after`, `closed_of_after` — a call ends with changes that matter, or where none is left.
-/

namespace FileRoutes.Watch

/-- The changes that reach the channel while some things happen, in order; nothing does once its
sending end is gone. -/
def sentBy : List Happening → List Path
  | [] => []
  | .sent paths :: rest => paths ++ sentBy rest
  | .ended :: _ => []
  | .taken :: rest => sentBy rest
  | .quiet :: rest => sentBy rest

/-- The changes that a call ended with. -/
def Batch.changes : Batch → List Path
  | .paths changes => changes
  | .closed => []

/-- A change matters unless its path begins with that of the ignored directory, component by
component. -/
theorem matters_iff {ignored p : Path} :
    matters ignored p = true ↔ ¬ ignored.components <+: p.components := by
  rw [matters, Path.startsWith, Bool.not_eq_true', ← Bool.not_eq_true, List.isPrefixOf_iff_prefix]

namespace Collector

variable {ignored : Path} {c : Collector}

/-- The changes that matter and are in no batch yet: those that the running call holds, and those
that it has not taken. -/
def waiting (ignored : Path) (c : Collector) : List Path :=
  c.held ++ c.channel.queue.filter (matters ignored)

/-- The changes that reach the channel of a collector while some things happen. -/
def arriving (c : Collector) (hs : List Happening) : List Path :=
  if c.channel.closed then [] else sentBy hs

/-! ### What one happening does to the changes -/

theorem waiting_finish :
    c.finish.1.toList.flatMap Batch.changes ++ c.finish.2.waiting ignored = c.waiting ignored := by
  by_cases h : c.held = [] <;> simp [finish, waiting, h, Batch.changes]

theorem waiting_take :
    (c.take ignored).1.toList.flatMap Batch.changes ++ (c.take ignored).2.waiting ignored =
      c.waiting ignored := by
  obtain ⟨⟨queue, closed⟩, held⟩ := c
  cases queue with
  | nil =>
    cases closed with
    | false => simp [take]
    | true => exact waiting_finish
  | cons p rest => by_cases h : matters ignored p <;> simp [take, waiting, h]

/-- Taking a change does not close the channel. -/
theorem closed_take : (c.take ignored).2.channel.closed = c.channel.closed := by
  obtain ⟨⟨queue, closed⟩, held⟩ := c
  cases queue with
  | nil => cases closed <;> rfl
  | cons p rest => rfl

/-- What one happening does to the changes that matter: those that it sends go to the end, and
those that it hands out are taken from the front. -/
theorem waiting_after (h : Happening) (rest : List Happening) :
    (c.after ignored h).1.toList.flatMap Batch.changes ++ ((c.after ignored h).2.waiting ignored ++
        ((c.after ignored h).2.arriving rest).filter (matters ignored)) =
      c.waiting ignored ++ (c.arriving (h :: rest)).filter (matters ignored) := by
  cases h with
  | sent paths =>
    by_cases hc : c.channel.closed <;> simp [after, Channel.send, waiting, arriving, sentBy, hc]
  | ended => simp [after, Channel.close, waiting, arriving, sentBy]
  | taken =>
    have harriving : (c.take ignored).2.arriving rest = c.arriving (.taken :: rest) := by
      rw [arriving, closed_take, arriving, sentBy]
    rw [after, ← List.append_assoc, waiting_take, harriving]
  | quiet =>
    rw [after]
    split
    · rfl
    · rw [← List.append_assoc, waiting_finish]
      rfl

/-- Over a whole run the changes that matter are handed out, held or queued, in order. -/
theorem waiting_run (ignored : Path) (c : Collector) (hs : List Happening) :
    (c.run ignored hs).1.flatMap Batch.changes ++ (c.run ignored hs).2.waiting ignored =
      c.waiting ignored ++ (c.arriving hs).filter (matters ignored) := by
  induction hs generalizing c with
  | nil => simp [run, arriving, sentBy]
  | cons h rest ih =>
    rw [run]
    dsimp only
    rw [List.flatMap_append, List.append_assoc, ih, waiting_after]

/-! ### Proper batches -/

/-- A running call holds only changes that matter. -/
def Sound (ignored : Path) (c : Collector) : Prop := ∀ p ∈ c.held, matters ignored p = true

theorem Sound.finish (c : Collector) : Sound ignored c.finish.2 := fun p hp => by
  simp [Collector.finish] at hp

theorem Sound.take (hc : c.Sound ignored) : (c.take ignored).2.Sound ignored := by
  obtain ⟨⟨queue, closed⟩, held⟩ := c
  cases queue with
  | nil =>
    cases closed with
    | false => exact hc
    | true => exact .finish _
  | cons q rest =>
    intro p hp
    by_cases hq : matters ignored q = true
    · rw [Collector.take] at hp
      simp only [hq, if_true, List.mem_append, List.mem_singleton] at hp
      obtain hp | rfl := hp
      · exact hc p hp
      · exact hq
    · rw [Collector.take] at hp
      simp only [hq] at hp
      exact hc p hp

theorem Sound.after (hc : c.Sound ignored) (h : Happening) :
    (c.after ignored h).2.Sound ignored := by
  cases h with
  | sent paths => exact hc
  | ended => exact hc
  | taken => exact hc.take
  | quiet =>
    rw [Collector.after]
    split
    · exact hc
    · exact .finish c

theorem Sound.run (hc : c.Sound ignored) (hs : List Happening) :
    (c.run ignored hs).2.Sound ignored := by
  induction hs generalizing c with
  | nil => exact hc
  | cons h rest ih => exact ih (hc.after h)

/-- What a call may end with: some changes, all of which matter, or the end of the channel. -/
def Proper (ignored : Path) : Batch → Prop
  | .paths changes => changes ≠ [] ∧ ∀ p ∈ changes, matters ignored p = true
  | .closed => True

theorem proper_finish (hc : c.Sound ignored) {b : Batch} (hb : c.finish.1 = some b) :
    Proper ignored b := by
  obtain rfl := Option.some.inj hb
  split
  · trivial
  · next hheld => exact ⟨hheld, hc⟩

/-- A call ends with changes that matter, or with the end of the channel. -/
theorem proper_after (hc : c.Sound ignored) {h : Happening} {b : Batch}
    (hb : (c.after ignored h).1 = some b) : Proper ignored b := by
  cases h with
  | sent paths => cases hb
  | ended => cases hb
  | taken =>
    rw [after, take] at hb
    split at hb
    · cases hb
    · split at hb
      · exact proper_finish hc hb
      · cases hb
  | quiet =>
    rw [after] at hb
    split at hb
    · cases hb
    · exact proper_finish hc hb

theorem proper_of_mem_run (hc : c.Sound ignored) {hs : List Happening} {b : Batch}
    (hb : b ∈ (c.run ignored hs).1) : Proper ignored b := by
  induction hs generalizing c with
  | nil => cases hb
  | cons h rest ih =>
    rw [run] at hb
    obtain hb | hb := List.mem_append.1 hb
    · exact proper_after hc (Option.mem_toList.1 hb)
    · exact ih (hc.after h) hb

/-- A call notices the end of the channel only where it holds nothing and nothing is left. -/
theorem closed_of_after {h : Happening} (hb : (c.after ignored h).1 = some .closed) :
    c.channel.closed = true ∧ c.held = [] ∧ c.channel.queue = [] := by
  have hfinish : c.finish.1 = some .closed → c.held = [] := by
    intro he
    rw [finish] at he
    split at he
    · next hheld => exact hheld
    · cases he
  cases h with
  | sent paths => cases hb
  | ended => cases hb
  | taken =>
    rw [after, take] at hb
    split at hb
    · cases hb
    · next hqueue =>
      split at hb
      · next hclosed => exact ⟨hclosed, hfinish hb, hqueue⟩
      · cases hb
  | quiet =>
    rw [after] at hb
    split at hb
    · cases hb
    · next hheld => exact absurd (hfinish hb) hheld

/-- **No change is lost, doubled or moved.** Whatever has happened since the channel was opened,
the changes of all batches so far, then those that the running call holds, then those that wait
in the channel are exactly the changes sent so far, as far as they matter. Every batch holds
something, and nothing under the ignored directory; and a call finds the channel ended only where
its sending end is gone and nothing that matters is left. -/
theorem run_keeps_changes (ignored : Path) (hs : List Happening) :
    let batches := (run ignored {} hs).1
    let c := (run ignored {} hs).2
    batches.flatMap Batch.changes ++ c.held ++ c.channel.queue.filter (matters ignored) =
        (sentBy hs).filter (matters ignored) ∧
      (∀ changes, .paths changes ∈ batches →
        changes ≠ [] ∧ ∀ p ∈ changes, ¬ ignored.components <+: p.components) ∧
      (∀ h, (c.after ignored h).1 = some .closed → c.channel.closed = true ∧ c.held = [] ∧
        ∀ p ∈ c.channel.queue, matters ignored p = false) := by
  have hempty : Sound ignored {} := fun p hp => by cases hp
  refine ⟨?_, fun changes hchanges => ?_, fun h hclosed => ?_⟩
  · have hrun := waiting_run ignored {} hs
    rwa [waiting, ← List.append_assoc] at hrun
  · obtain ⟨hne, hmatters⟩ : Proper ignored (.paths changes) := proper_of_mem_run hempty hchanges
    exact ⟨hne, fun p hp => matters_iff.1 (hmatters p hp)⟩
  · obtain ⟨hclosed, hheld, hqueue⟩ := closed_of_after hclosed
    exact ⟨hclosed, hheld, fun p hp => by rw [hqueue] at hp; cases hp⟩

end Collector

end FileRoutes.Watch
