import Mathlib.Data.List.Nodup
import Mathlib.Tactic.Common

/-!
# Receiving numbered messages in any order

Messages come in streams, each numbered from zero. A receiver follows the
newest streams only; in each one it knows the next number it has not passed,
and remembers the newest of the numbers it has skipped. A message is taken if
its stream is followed or new and its number is ahead, but not too far, or
remembered as skipped.

What is forgotten is recorded too: the skipped numbers and the streams that
had to make room. A message that was not taken before and was not forgotten is
taken, unless it is too far ahead.
-/

namespace ReceiveWindow

open List

structure Window where
  next : ℕ
  /-- The remembered numbers, the newest first. -/
  skipped : List ℕ
  forgotten : List ℕ
  taken : List ℕ
deriving DecidableEq, Repr

namespace Window

def new : Window := ⟨0, [], [], []⟩

def skip (capacity : ℕ) (window : Window) : Window :=
  let remembered := window.next :: window.skipped
  { window with
    next := window.next + 1
    skipped := remembered.take capacity
    forgotten := remembered.drop capacity ++ window.forgotten }

def skipMany (capacity : ℕ) : ℕ → Window → Window
  | 0, window => window
  | count + 1, window => skipMany capacity count (window.skip capacity)

def takeNext (window : Window) : Window :=
  { window with next := window.next + 1, taken := window.next :: window.taken }

def takeSkipped (number : ℕ) (window : Window) : Window :=
  { window with skipped := window.skipped.erase number, taken := number :: window.taken }

/-- The window after the message of the number, none if it is not taken. Without a bound on the
jump every number ahead is taken. -/
def receive (capacity : ℕ) (maxJump : Option ℕ) (number : ℕ) (window : Window) : Option Window :=
  if number < window.next then
    if number ∈ window.skipped then some (window.takeSkipped number) else none
  else if ∀ bound ∈ maxJump, number - window.next ≤ bound then
    some (window.skipMany capacity (number - window.next)).takeNext
  else none

/-- Every number is ahead, remembered, forgotten or taken. -/
structure Sound (capacity : ℕ) (window : Window) : Prop where
  room : window.skipped.length ≤ capacity
  skipped_lt : ∀ number ∈ window.skipped, number < window.next
  skipped_nodup : window.skipped.Nodup
  cover : ∀ number < window.next,
    number ∈ window.skipped ∨ number ∈ window.forgotten ∨ number ∈ window.taken
  taken_passed : ∀ number ∈ window.taken, number < window.next ∧ number ∉ window.skipped

theorem sound_new (capacity : ℕ) : Sound capacity new := by
  constructor <;> simp [new]

variable {capacity : ℕ} {window : Window} {count number : ℕ} {maxJump : Option ℕ}
  {next received : Window}

theorem Sound.skip (sound : Sound capacity window) :
    Sound capacity (window.skip capacity) := by
  have distinct : (window.next :: window.skipped).Nodup := by
    rw [nodup_cons]
    refine ⟨?_, sound.skipped_nodup⟩
    intro member
    exact Nat.lt_irrefl _ (sound.skipped_lt _ member)
  refine ⟨?_, ?_, ?_, ?_, ?_⟩
  · exact length_take_le capacity _
  · intro number member
    have remembered := mem_of_mem_take member
    change number < window.next + 1
    rcases mem_cons.mp remembered with rfl | older
    · omega
    · have earlier := sound.skipped_lt number older
      omega
  · exact distinct.sublist (take_sublist _ _)
  · intro number passed
    have split : number ∈ window.next :: window.skipped →
        number ∈ (window.next :: window.skipped).take capacity ∨
          number ∈ (window.next :: window.skipped).drop capacity := by
      intro member
      rw [← mem_append, take_append_drop]
      exact member
    have remembered : number ∈ window.next :: window.skipped ∨
        number ∈ window.forgotten ∨ number ∈ window.taken := by
      change number < window.next + 1 at passed
      rcases Nat.lt_succ_iff_lt_or_eq.mp passed with earlier | rfl
      · rcases sound.cover number earlier with skipped | rest
        · exact Or.inl (mem_cons_of_mem _ skipped)
        · exact Or.inr rest
      · exact Or.inl mem_cons_self
    rcases remembered with member | forgotten | taken
    · rcases split member with kept | lost
      · exact Or.inl kept
      · exact Or.inr (Or.inl (mem_append_left _ lost))
    · exact Or.inr (Or.inl (mem_append_right _ forgotten))
    · exact Or.inr (Or.inr taken)
  · intro number member
    rcases sound.taken_passed number member with ⟨passed, spent⟩
    refine ⟨Nat.lt_succ_of_lt passed, ?_⟩
    intro kept
    rcases mem_cons.mp (mem_of_mem_take kept) with rfl | older
    · exact Nat.lt_irrefl _ passed
    · exact spent older

theorem Sound.skipMany (sound : Sound capacity window) :
    Sound capacity (window.skipMany capacity count) := by
  induction count generalizing window with
  | zero => exact sound
  | succ count ih => exact ih sound.skip

theorem next_skipMany (capacity count : ℕ) (window : Window) :
    (window.skipMany capacity count).next = window.next + count := by
  induction count generalizing window with
  | zero => rfl
  | succ count ih =>
    rw [skipMany, ih]
    change window.next + 1 + count = _
    omega

section

variable (sound : Sound capacity window)

include sound

theorem Sound.takeNext : Sound capacity window.takeNext := by
  refine ⟨sound.room, ?_, sound.skipped_nodup, ?_, ?_⟩
  · intro number member
    exact Nat.lt_succ_of_lt (sound.skipped_lt number member)
  · intro number passed
    rcases Nat.lt_succ_iff_lt_or_eq.mp passed with earlier | rfl
    · rcases sound.cover number earlier with skipped | forgotten | taken
      · exact Or.inl skipped
      · exact Or.inr (Or.inl forgotten)
      · exact Or.inr (Or.inr (mem_cons_of_mem _ taken))
    · exact Or.inr (Or.inr mem_cons_self)
  · intro number member
    rcases mem_cons.mp member with rfl | earlier
    · refine ⟨Nat.lt_succ_self _, ?_⟩
      intro skipped
      exact Nat.lt_irrefl _ (sound.skipped_lt _ skipped)
    · rcases sound.taken_passed number earlier with ⟨passed, spent⟩
      exact ⟨Nat.lt_succ_of_lt passed, spent⟩

theorem Sound.takeSkipped (stored : number ∈ window.skipped) :
    Sound capacity (window.takeSkipped number) := by
  refine ⟨?_, ?_, sound.skipped_nodup.erase number, ?_, ?_⟩
  · exact Nat.le_trans length_erase_le sound.room
  · intro other member
    exact sound.skipped_lt other (mem_of_mem_erase member)
  · intro other passed
    rcases sound.cover other passed with skipped | forgotten | taken
    · by_cases same : other = number
      · exact Or.inr (Or.inr (same ▸ mem_cons_self))
      · exact Or.inl ((mem_erase_of_ne same).mpr skipped)
    · exact Or.inr (Or.inl forgotten)
    · exact Or.inr (Or.inr (mem_cons_of_mem _ taken))
  · intro other member
    rcases mem_cons.mp member with rfl | earlier
    · exact ⟨sound.skipped_lt _ stored, sound.skipped_nodup.not_mem_erase⟩
    · rcases sound.taken_passed other earlier with ⟨passed, spent⟩
      exact ⟨passed, fun kept => spent (mem_of_mem_erase kept)⟩

theorem Sound.receive_of_taken (taken : number ∈ window.taken) :
    window.receive capacity maxJump number = none := by
  rcases sound.taken_passed number taken with ⟨passed, spent⟩
  rw [Window.receive, if_pos passed, if_neg spent]

theorem Sound.receive (received : window.receive capacity maxJump number = some next) :
    Sound capacity next := by
  unfold Window.receive at received
  split at received
  · split at received
    · rename_i stored
      cases received
      exact sound.takeSkipped stored
    · cases received
  · split at received
    · cases received
      exact sound.skipMany.takeNext
    · cases received

end

theorem receive_at_next (capacity : ℕ) (maxJump : Option ℕ) (window : Window) :
    window.receive capacity maxJump window.next = some window.takeNext := by
  simp [receive, skipMany]

theorem next_receive (taken : window.receive capacity maxJump number = some received) :
    received.next = window.next ∨ received.next = number + 1 := by
  unfold receive at taken
  split at taken
  · split at taken
    · cases taken
      exact Or.inl rfl
    · cases taken
  · rename_i reached
    split at taken
    · cases taken
      right
      change (window.skipMany capacity (number - window.next)).next + 1 = _
      rw [next_skipMany]
      omega
    · cases taken

theorem taken_receive (taken : window.receive capacity maxJump number = some received) :
    received.taken = number :: window.taken := by
  have kept : ∀ count window, (skipMany capacity count window).taken = window.taken := by
    intro count
    induction count with
    | zero => exact fun _ => rfl
    | succ count ih => exact fun window => ih (window.skip capacity)
  unfold receive at taken
  split at taken
  · split at taken
    · cases taken
      rfl
    · cases taken
  · rename_i reached
    split at taken
    · cases taken
      have position : (window.skipMany capacity (number - window.next)).next = number := by
        rw [next_skipMany]
        omega
      simp only [takeNext, position, kept]
    · cases taken

/-- The remembered numbers, the newest first, go down. -/
def Descending (window : Window) : Prop := window.skipped.Pairwise (· > ·)

section

variable (descending : window.Descending) (sound : Sound capacity window)

include descending sound

theorem Descending.skip : (window.skip capacity).Descending := by
  apply Pairwise.sublist (take_sublist _ _)
  exact pairwise_cons.mpr ⟨sound.skipped_lt, descending⟩

theorem Descending.skipMany : (window.skipMany capacity count).Descending := by
  induction count generalizing window with
  | zero => exact descending
  | succ count ih => exact ih (descending.skip sound) sound.skip

theorem Descending.receive (received : window.receive capacity maxJump number = some next) :
    next.Descending := by
  unfold Window.receive at received
  split at received
  · split at received
    · cases received
      exact descending.sublist erase_sublist
    · cases received
  · split at received
    · cases received
      exact descending.skipMany sound
    · cases received

end

/-- What was neither taken nor forgotten is taken, unless it is too far ahead. -/
theorem Sound.receive_isSome (sound : Sound capacity window) (notTaken : number ∉ window.taken)
    (notForgotten : number ∉ window.forgotten)
    (near : ∀ bound ∈ maxJump, number ≤ window.next + bound) :
    (window.receive capacity maxJump number).isSome := by
  unfold Window.receive
  split
  · rename_i passed
    rcases sound.cover number passed with skipped | forgotten | taken
    · simp [skipped]
    · exact absurd forgotten notForgotten
    · exact absurd taken notTaken
  · have close : ∀ bound ∈ maxJump, number - window.next ≤ bound := by
      intro bound given
      have reach := near bound given
      omega
    rw [if_pos close]
    rfl

end Window

section StoredKeys

variable {Key Index : Type} [DecidableEq Index] {key : ℕ → Key} {index : Key → Index}
  {value : Index} {number : ℕ} {numbers : List ℕ}
  (isIndex : ∀ other ∈ numbers, index (key other) = value ↔ other = number)

include isIndex

/-- A key that is stored for a number is found by the number's index. -/
theorem find_map_key :
    (numbers.map key).find? (fun stored => index stored = value) =
      if number ∈ numbers then some (key number) else none := by
  induction numbers with
  | nil => rfl
  | cons first rest ih =>
    rw [forall_mem_cons] at isIndex
    simp only [map_cons, find?_cons, isIndex.1, ih isIndex.2]
    by_cases found : first = number
    · simp [found]
    · simp [found, Ne.symm found]

theorem eraseP_map_key :
    (numbers.map key).eraseP (fun stored => index stored = value) =
      (numbers.erase number).map key := by
  induction numbers with
  | nil => rfl
  | cons first rest ih =>
    rw [forall_mem_cons] at isIndex
    simp only [map_cons, eraseP_cons, isIndex.1, ih isIndex.2, erase_cons]
    by_cases found : first = number
    · simp [found]
    · simp [found]

end StoredKeys

structure Limits where
  streams : ℕ
  capacity : ℕ
  maxJump : Option ℕ

structure Inbox (Stream : Type) where
  /-- The followed streams, the oldest first. -/
  windows : List (Stream × Window)
  dropped : List Stream

namespace Inbox

variable {Stream : Type} [DecidableEq Stream]

def streams (inbox : Inbox Stream) : List Stream :=
  inbox.windows.map Prod.fst

def find (inbox : Inbox Stream) (stream : Stream) : Option Window :=
  (inbox.windows.find? fun entry => entry.1 = stream).map Prod.snd

def window (inbox : Inbox Stream) (stream : Stream) : Window :=
  (inbox.find stream).getD Window.new

def replace (inbox : Inbox Stream) (stream : Stream) (window : Window) : Inbox Stream :=
  { inbox with
    windows := inbox.windows.map fun entry =>
      if entry.1 = stream then (stream, window) else entry }

/-- Follows a new stream; the oldest one makes room when there are too many. -/
def follow (limits : Limits) (inbox : Inbox Stream) (stream : Stream) : Inbox Stream :=
  let windows := inbox.windows ++ [(stream, Window.new)]
  if limits.streams < windows.length then
    ⟨windows.tail, (windows.head?.map Prod.fst).toList ++ inbox.dropped⟩
  else ⟨windows, inbox.dropped⟩

def receive (limits : Limits) (inbox : Inbox Stream) (stream : Stream) (number : ℕ) :
    Option (Inbox Stream) :=
  match inbox.find stream with
  | some window =>
    (window.receive limits.capacity limits.maxJump number).map (inbox.replace stream)
  | none =>
    if stream ∈ inbox.dropped then none
    else
      (Window.new.receive limits.capacity limits.maxJump number).map
        ((inbox.follow limits stream).replace stream)

structure Sound (limits : Limits) (inbox : Inbox Stream) : Prop where
  streams_nodup : inbox.streams.Nodup
  windows_sound : ∀ entry ∈ inbox.windows, entry.2.Sound limits.capacity
  dropped_not_followed : ∀ stream ∈ inbox.dropped, stream ∉ inbox.streams

variable {inbox : Inbox Stream} {stream : Stream} {window : Window} {other : Stream}
  {limits : Limits} {next : Inbox Stream} {number : ℕ}

theorem find_eq_none :
    inbox.find stream = none ↔ stream ∉ inbox.streams := by
  simp only [find, streams, Option.map_eq_none_iff, find?_eq_none, decide_eq_true_eq,
    mem_map, not_exists, not_and]

theorem mem_of_find (found : inbox.find stream = some window) :
    (stream, window) ∈ inbox.windows := by
  rcases Option.map_eq_some_iff.mp found with ⟨⟨other, held⟩, located, rfl⟩
  have same := find?_some located
  simp only [decide_eq_true_eq] at same
  subst same
  exact mem_of_find?_eq_some located

theorem streams_replace (inbox : Inbox Stream) (stream : Stream) (window : Window) :
    (inbox.replace stream window).streams = inbox.streams := by
  simp only [streams, replace, map_map]
  apply map_congr_left
  intro entry _
  by_cases same : entry.1 = stream <;> simp [same]

theorem find_replace {before : Window} (found : inbox.find stream = some before) (window : Window) :
    (inbox.replace stream window).find stream = some window := by
  rcases inbox with ⟨windows, dropped⟩
  simp only [find, replace] at found ⊢
  induction windows with
  | nil => simp at found
  | cons entry rest ih =>
    by_cases same : entry.1 = stream
    · simp [same]
    · simp only [find?_cons, same, decide_false] at found
      simpa [same] using ih found

theorem find_replace_of_ne (different : other ≠ stream) (window : Window) :
    (inbox.replace stream window).find other = inbox.find other := by
  rcases inbox with ⟨windows, dropped⟩
  simp only [find, replace]
  induction windows with
  | nil => rfl
  | cons entry rest ih =>
    by_cases same : entry.1 = stream
    · have otherName : entry.1 ≠ other := same ▸ different.symm
      simpa [same, different.symm, otherName] using ih
    · by_cases named : entry.1 = other
      · simp [named, different]
      · simpa [same, named] using ih

theorem find_of_mem (nodup : inbox.streams.Nodup) (member : (stream, window) ∈ inbox.windows) :
    inbox.find stream = some window := by
  cases found : inbox.find stream with
  | none =>
    exact absurd (mem_map_of_mem member) (find_eq_none.mp found)
  | some other =>
    have same := inj_on_of_nodup_map nodup (mem_of_find found) member rfl
    cases same
    rfl

theorem replace_replace (inbox : Inbox Stream) (stream : Stream) (first second : Window) :
    (inbox.replace stream first).replace stream second = inbox.replace stream second := by
  simp only [replace, map_map, mk.injEq, and_true]
  apply map_congr_left
  intro entry _
  by_cases same : entry.1 = stream <;> simp [same]

theorem replace_find (nodup : inbox.streams.Nodup) (found : inbox.find stream = some window) :
    inbox.replace stream window = inbox := by
  have same : inbox.windows.map (fun entry =>
      if entry.1 = stream then (stream, window) else entry) = inbox.windows := by
    conv_rhs => rw [← map_id inbox.windows]
    apply map_congr_left
    intro entry member
    split
    · rename_i named
      exact (inj_on_of_nodup_map nodup member (mem_of_find found) named).symm
    · rfl
  rcases inbox with ⟨windows, dropped⟩
  exact congrArg (fun windows => Inbox.mk windows dropped) same

theorem Sound.replace (sound : Sound limits inbox) (windowSound : window.Sound limits.capacity) :
    Sound limits (inbox.replace stream window) := by
  refine ⟨?_, ?_, ?_⟩
  · rw [streams_replace]
    exact sound.streams_nodup
  · intro entry member
    rcases mem_map.mp member with ⟨before, present, rfl⟩
    by_cases same : before.1 = stream
    · simpa [same] using windowSound
    · simpa [same] using sound.windows_sound before present
  · rw [streams_replace]
    exact sound.dropped_not_followed

omit [DecidableEq Stream] in
theorem windows_follow (limits : Limits) (inbox : Inbox Stream) (stream : Stream) :
    (inbox.follow limits stream).windows =
      if limits.streams < (inbox.windows ++ [(stream, Window.new)]).length then
        (inbox.windows ++ [(stream, Window.new)]).tail
      else inbox.windows ++ [(stream, Window.new)] := by
  unfold follow
  dsimp only
  split <;> rfl

omit [DecidableEq Stream] in
theorem length_follow {limits : Limits} {inbox : Inbox Stream} {stream : Stream}
    (few : inbox.windows.length ≤ limits.streams) :
    (inbox.follow limits stream).windows.length ≤ limits.streams := by
  rw [windows_follow]
  split
  · rw [length_tail, length_append, length_singleton]
    omega
  · omega

omit [DecidableEq Stream] in
theorem mem_windows_follow {limits : Limits} {inbox : Inbox Stream} {stream : Stream}
    {entry : Stream × Window} (member : entry ∈ (inbox.follow limits stream).windows) :
    entry ∈ inbox.windows ∨ entry = (stream, Window.new) := by
  rw [windows_follow] at member
  have all : entry ∈ inbox.windows ++ [(stream, Window.new)] := by
    split at member
    · exact mem_of_mem_tail member
    · exact member
  simpa using all

omit [DecidableEq Stream] in
theorem nodup_streams_append {inbox : Inbox Stream} (nodup : inbox.streams.Nodup)
    {stream : Stream} (new : stream ∉ inbox.streams) :
    ((inbox.windows ++ [(stream, Window.new)]).map Prod.fst).Nodup := by
  rw [map_append, map_singleton, nodup_append]
  refine ⟨nodup, nodup_singleton _, ?_⟩
  intro followed member other last
  rw [mem_singleton.mp last]
  rintro rfl
  exact new member

omit [DecidableEq Stream] in
theorem nodup_streams_follow {limits : Limits} {inbox : Inbox Stream}
    (nodup : inbox.streams.Nodup) {stream : Stream} (new : stream ∉ inbox.streams) :
    (inbox.follow limits stream).streams.Nodup := by
  refine Nodup.sublist ?_ (nodup_streams_append nodup new)
  rw [streams, windows_follow]
  apply Sublist.map
  split
  · exact tail_sublist _
  · exact Sublist.refl _

def Known (inbox : Inbox Stream) (stream : Stream) : Prop :=
  stream ∈ inbox.streams ∨ stream ∈ inbox.dropped

theorem known_replace :
    (inbox.replace stream window).Known other ↔ inbox.Known other := by
  unfold Known
  rw [streams_replace]
  rfl

omit [DecidableEq Stream] in
theorem known_follow {limits : Limits} {inbox : Inbox Stream} {stream other : Stream} :
    (inbox.follow limits stream).Known other ↔ other = stream ∨ inbox.Known other := by
  rcases inbox with ⟨windows, dropped⟩
  simp only [Known, streams, follow]
  split
  · cases windows with
    | nil => simp
    | cons first rest =>
      simp only [cons_append, tail_cons, head?_cons, Option.map_some,
        Option.toList_some, map_append, map_cons, map_nil, mem_append,
        mem_cons, not_mem_nil, or_false]
      tauto
  · simp only [map_append, map_cons, map_nil, mem_append, mem_cons,
      not_mem_nil, or_false]
    tauto

theorem find_follow (room : 0 < limits.streams) (new : stream ∉ inbox.streams) :
    (inbox.follow limits stream).find stream = some Window.new := by
  rcases inbox with ⟨windows, dropped⟩
  have absent : ∀ entry ∈ windows, entry.1 ≠ stream := by
    intro entry member same
    exact new (mem_map.mpr ⟨entry, member, same⟩)
  have last : ∀ entries : List (Stream × Window), (∀ entry ∈ entries, entry.1 ≠ stream) →
      (entries ++ [(stream, Window.new)]).find? (fun entry => entry.1 = stream) =
        some (stream, Window.new) := by
    intro entries others
    rw [find?_append, find?_eq_none.mpr (by simpa using others)]
    simp
  rw [find, windows_follow]
  split
  · rename_i full
    cases windows with
    | nil =>
      simp only [nil_append, length_singleton] at full
      omega
    | cons first rest =>
      rw [cons_append, tail_cons,
        last rest fun entry member => absent entry (mem_cons_of_mem _ member)]
      rfl
  · rw [last windows absent]
    rfl

omit [DecidableEq Stream] in
theorem Sound.follow {limits : Limits} {inbox : Inbox Stream} (sound : Sound limits inbox)
    {stream : Stream} (new : stream ∉ inbox.streams) (notDropped : stream ∉ inbox.dropped) :
    Sound limits (inbox.follow limits stream) := by
  rcases inbox with ⟨windows, dropped⟩
  have nodup := nodup_streams_append sound.streams_nodup new
  have windowsSound : ∀ entry ∈ windows ++ [(stream, Window.new)],
      entry.2.Sound limits.capacity := by
    intro entry member
    rcases mem_append.mp member with older | last
    · exact sound.windows_sound entry older
    · rw [mem_singleton.mp last]
      exact Window.sound_new limits.capacity
  have kept : ∀ lost ∈ dropped, lost ∉ (windows ++ [(stream, Window.new)]).map Prod.fst := by
    intro lost member present
    rw [map_append, map_singleton, mem_append, mem_singleton] at present
    rcases present with older | rfl
    · exact sound.dropped_not_followed lost member older
    · exact notDropped member
  unfold Inbox.follow
  dsimp only
  split
  · cases all : windows ++ [(stream, Window.new)] with
    | nil => simp at all
    | cons first rest =>
      rw [all] at nodup windowsSound kept
      rw [map_cons, nodup_cons] at nodup
      refine ⟨nodup.2, fun entry member => windowsSound entry (mem_cons_of_mem _ member), ?_⟩
      intro lost member
      rcases mem_append.mp member with head | before
      · rw [show lost = first.1 by simpa using head]
        exact nodup.1
      · intro present
        exact kept lost before (mem_cons_of_mem _ present)
  · exact ⟨nodup, windowsSound, kept⟩

theorem find_of_find_follow (nodup : inbox.streams.Nodup) (different : other ≠ stream)
    (found : (inbox.follow limits stream).find other = some window) :
    inbox.find other = some window := by
  rcases mem_windows_follow (mem_of_find found) with before | new
  · exact find_of_mem nodup before
  · exact absurd (congrArg Prod.fst new) different

/-- A message that is taken belongs to a followed stream, or to one that was never known. -/
theorem receive_eq_some (received : inbox.receive limits stream number = some next) :
    (∃ window after, inbox.find stream = some window ∧
      window.receive limits.capacity limits.maxJump number = some after ∧
      next = inbox.replace stream after) ∨
    ¬inbox.Known stream ∧ ∃ after,
      Window.new.receive limits.capacity limits.maxJump number = some after ∧
      next = (inbox.follow limits stream).replace stream after := by
  unfold receive at received
  split at received
  · rename_i window found
    rcases Option.map_eq_some_iff.mp received with ⟨after, taken, rfl⟩
    exact Or.inl ⟨window, after, found, taken, rfl⟩
  · rename_i missing
    split at received
    · cases received
    · rename_i notDropped
      rcases Option.map_eq_some_iff.mp received with ⟨after, taken, rfl⟩
      exact Or.inr ⟨not_or.mpr ⟨find_eq_none.mp missing, notDropped⟩, after, taken, rfl⟩

theorem known_receive (received : inbox.receive limits stream number = some next) :
    next.Known other ↔ other = stream ∨ inbox.Known other := by
  rcases receive_eq_some received with ⟨window, after, found, _, rfl⟩ | ⟨_, after, _, rfl⟩
  · rw [known_replace]
    constructor
    · exact Or.inr
    · rintro (rfl | known)
      · exact Or.inl (mem_map_of_mem (mem_of_find found))
      · exact known
  · rw [known_replace, known_follow]

theorem find_receive (room : 0 < limits.streams) (nodup : inbox.streams.Nodup) {after : Window}
    (received : inbox.receive limits stream number = some next)
    (found : next.find other = some after) :
    other = stream ∧ after.taken = number :: (inbox.window stream).taken ∨
      other ≠ stream ∧ inbox.find other = some after := by
  by_cases same : other = stream
  · subst same
    refine Or.inl ⟨rfl, ?_⟩
    rcases receive_eq_some received with
      ⟨window, taken, before, takes, rfl⟩ | ⟨unknown, taken, takes, rfl⟩
    · rw [find_replace before] at found
      cases found
      rw [Window.taken_receive takes, Inbox.window, before]
      rfl
    · have notFollowed := (not_or.mp unknown).1
      rw [find_replace (find_follow room notFollowed)] at found
      cases found
      rw [Window.taken_receive takes, Inbox.window, find_eq_none.mpr notFollowed]
      rfl
  · refine Or.inr ⟨same, ?_⟩
    rcases receive_eq_some received with
      ⟨window, taken, before, takes, rfl⟩ | ⟨_, taken, takes, rfl⟩
    · rw [find_replace_of_ne same] at found
      exact found
    · rw [find_replace_of_ne same] at found
      exact find_of_find_follow nodup same found

theorem Sound.receive_of_spent (sound : Sound limits inbox) (known : inbox.Known stream)
    (spent : ∀ window, inbox.find stream = some window → number ∈ window.taken) :
    inbox.receive limits stream number = none := by
  unfold Inbox.receive
  cases found : inbox.find stream with
  | some window =>
    have windowSound : window.Sound limits.capacity :=
      sound.windows_sound _ (mem_of_find found)
    dsimp only
    rw [windowSound.receive_of_taken (spent window found)]
    rfl
  | none =>
    exact if_pos (known.resolve_left (find_eq_none.mp found))

theorem Sound.receive_isSome (sound : Sound limits inbox) (notDropped : stream ∉ inbox.dropped)
    (notTaken : number ∉ (inbox.window stream).taken)
    (notForgotten : number ∉ (inbox.window stream).forgotten)
    (near : ∀ bound ∈ limits.maxJump, number ≤ (inbox.window stream).next + bound) :
    (inbox.receive limits stream number).isSome := by
  unfold Inbox.receive
  unfold Inbox.window at notTaken notForgotten near
  cases found : inbox.find stream with
  | some window =>
    rw [found] at notTaken notForgotten near
    rw [Option.isSome_map]
    exact (sound.windows_sound _ (mem_of_find found)).receive_isSome notTaken notForgotten near
  | none =>
    rw [found] at notTaken notForgotten near
    dsimp only
    rw [if_neg notDropped, Option.isSome_map]
    exact (Window.sound_new _).receive_isSome notTaken notForgotten near

end Inbox

end ReceiveWindow
