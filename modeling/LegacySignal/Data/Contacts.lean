import LegacySignal.Data.Database

/-!
# The columns of a contact

Two calls write the row of a contact. `saveContact` puts only the values that are not null into
its row, as a call that merges would, but replaces the old row with it; `saveContactAvatar`
updates the old row in place. A column therefore keeps the last value given for it until a call
of `saveContact` for the same contact leaves the column out.
-/

namespace LegacySignal

/-- The columns of `contacts` that a getter of `DatabaseHelper` reads. -/
inductive ContactColumn where
  | name
  | profileKey
  | avatarPath
deriving DecidableEq, Repr

/-- A call that writes a contact; a null argument is a column of the row without a value. -/
inductive ContactCall where
  | saveContact (contact : Contact)
  | saveContactAvatar (uuid avatarPath : String)
deriving DecidableEq, Repr

namespace Contact

def column (contact : Contact) : ContactColumn → Option String
  | .name => contact.name
  | .profileKey => contact.profileKey
  | .avatarPath => contact.avatarPath

end Contact

namespace ContactCall

def uuid : ContactCall → String
  | saveContact contact => contact.uuid
  | saveContactAvatar uuid _ => uuid

def given (column : ContactColumn) (uuid : String) : ContactCall → Option String
  | saveContact contact => if contact.uuid = uuid then contact.column column else none
  | saveContactAvatar contact avatarPath =>
    if contact = uuid ∧ column = .avatarPath then some avatarPath else none

def Replaces (uuid : String) : ContactCall → Prop
  | saveContact contact => contact.uuid = uuid
  | saveContactAvatar _ _ => False

instance (uuid : String) : DecidablePred (Replaces uuid)
  | saveContact contact => inferInstanceAs (Decidable (contact.uuid = uuid))
  | saveContactAvatar _ _ => inferInstanceAs (Decidable False)

def lastGiven (column : ContactColumn) (uuid : String) (calls : List ContactCall) :
    Option String :=
  calls.foldl (fun last call => (call.given column uuid).or last) none

/-- A call that replaces the row without a value for the column comes before the first value of
the column, or another value is given after it. -/
def Refilled (column : ContactColumn) (uuid : String) (calls : List ContactCall) : Prop :=
  ∀ before call after, calls = before ++ call :: after → call.Replaces uuid →
    call.given column uuid = none → lastGiven column uuid before ≠ none →
      ∃ later ∈ after, later.given column uuid ≠ none

theorem lastGiven_append_singleton (column : ContactColumn) (uuid : String)
    (calls : List ContactCall) (call : ContactCall) :
    lastGiven column uuid (calls ++ [call]) =
      (call.given column uuid).or (lastGiven column uuid calls) := by
  simp [lastGiven]

variable {column : ContactColumn} {uuid : String} {call : ContactCall}

theorem lastGiven_append_ne_none {before : List ContactCall} (after : List ContactCall)
    (given : lastGiven column uuid before ≠ none) :
    lastGiven column uuid (before ++ after) ≠ none := by
  induction after using List.reverseRecOn with
  | nil => rwa [List.append_nil]
  | append_singleton after call ih =>
    rw [← List.append_assoc, lastGiven_append_singleton]
    cases call.given column uuid with
    | none => exact ih
    | some value => exact Option.some_ne_none value

theorem refilled_of_given (calls : List ContactCall) (given : call.given column uuid ≠ none) :
    Refilled column uuid (calls ++ [call]) := by
  intro before other after split _ missing _
  rcases List.eq_nil_or_concat' after with rfl | ⟨init, last, rfl⟩
  · obtain ⟨rfl, rfl⟩ : calls = before ∧ call = other := by simpa using split
    exact absurd missing given
  · rw [← List.cons_append, ← List.append_assoc] at split
    obtain ⟨_, rfl⟩ := List.append_singleton_inj.mp split
    exact ⟨call, by simp, given⟩

/-- A last call that gives nothing cannot fill a column that an earlier one emptied. -/
theorem refilled_append_singleton (calls : List ContactCall)
    (missing : call.given column uuid = none) :
    Refilled column uuid (calls ++ [call]) ↔
      Refilled column uuid calls ∧
        (call.Replaces uuid → lastGiven column uuid calls = none) := by
  constructor
  · intro refilled
    constructor
    · intro before other after split replaces unset given
      obtain ⟨later, member, gives⟩ := refilled before other (after ++ [call])
        (by simp [split]) replaces unset given
      rcases List.mem_append.mp member with member | last
      · exact ⟨later, member, gives⟩
      · obtain rfl := List.mem_singleton.mp last
        exact absurd missing gives
    · intro replaces
      by_contra given
      obtain ⟨_, member, _⟩ := refilled calls call [] rfl replaces missing given
      exact absurd member List.not_mem_nil
  · rintro ⟨refilled, unset⟩ before other after split replaces omitted given
    rcases List.eq_nil_or_concat' after with rfl | ⟨init, last, rfl⟩
    · obtain ⟨rfl, rfl⟩ : calls = before ∧ call = other := by simpa using split
      exact absurd (unset replaces) given
    · rw [← List.cons_append, ← List.append_assoc] at split
      obtain ⟨earlier, rfl⟩ := List.append_singleton_inj.mp split
      obtain ⟨later, member, gives⟩ :=
        refilled before other init earlier replaces omitted given
      exact ⟨later, List.mem_append_left _ member, gives⟩

end ContactCall

namespace Database

open ContactCall

def getColumn (db : Database) (column : ContactColumn) (uuid : String) : Option String :=
  (db.findContact uuid).bind (·.column column)

def callContact (db : Database) : ContactCall → Database
  | .saveContact contact => db.saveContact contact
  | .saveContactAvatar uuid avatarPath => db.saveContactAvatar uuid avatarPath

def callContacts (db : Database) (calls : List ContactCall) : Database :=
  calls.foldl callContact db

theorem callContacts_append_singleton (db : Database) (calls : List ContactCall)
    (call : ContactCall) :
    db.callContacts (calls ++ [call]) = (db.callContacts calls).callContact call := by
  simp [callContacts]

theorem findContact_callContact_other (db : Database) {call : ContactCall} {uuid : String}
    (other : uuid ≠ call.uuid) :
    (db.callContact call).findContact uuid = db.findContact uuid := by
  cases call with
  | saveContact contact => exact db.findContact_saveContact_other other
  | saveContactAvatar contact avatarPath =>
    exact db.findContact_saveContactAvatar_other avatarPath other

/-- What one call leaves in a column: the value it gives, nothing when it replaces the row, and
otherwise what was there. -/
theorem getColumn_callContact (db : Database) (call : ContactCall) (column : ContactColumn)
    (uuid : String) :
    (db.callContact call).getColumn column uuid =
      if call.Replaces uuid then call.given column uuid
      else (call.given column uuid).or (db.getColumn column uuid) := by
  cases call with
  | saveContact contact =>
    by_cases same : contact.uuid = uuid
    · rw [if_pos (show Replaces uuid (.saveContact contact) from same), given, if_pos same,
        getColumn, callContact, ← same, findContact_saveContact_self]
      rfl
    · rw [if_neg (show ¬ Replaces uuid (.saveContact contact) from same), given, if_neg same,
        getColumn, callContact, db.findContact_saveContact_other (Ne.symm same)]
      rfl
  | saveContactAvatar contact avatarPath =>
    rw [if_neg (show ¬ Replaces uuid (.saveContactAvatar contact avatarPath) from id), given]
    by_cases same : contact = uuid
    · subst same
      rw [getColumn, callContact, findContact_saveContactAvatar_self, getColumn]
      cases column <;> cases db.findContact contact <;> simp [Contact.column]
    · rw [if_neg fun both => same both.1, getColumn, callContact,
        db.findContact_saveContactAvatar_other avatarPath (Ne.symm same)]
      rfl

/-- A column holds the last value given for it exactly when no row was replaced without it. -/
theorem getColumn_callContacts_iff (calls : List ContactCall) (column : ContactColumn)
    (uuid : String) :
    (empty.callContacts calls).getColumn column uuid = lastGiven column uuid calls ↔
      Refilled column uuid calls := by
  -- The induction is on the last call: whether it gives a value decides both sides.
  induction calls using List.reverseRecOn with
  | nil => exact iff_of_true rfl fun before call after split => by simp at split
  | append_singleton calls call ih =>
    rw [callContacts_append_singleton, getColumn_callContact, lastGiven_append_singleton]
    cases gives : call.given column uuid with
    | some value =>
      refine iff_of_true ?_ (refilled_of_given calls (by simp [gives]))
      split <;> rfl
    | none =>
      rw [refilled_append_singleton calls gives, ← ih]
      by_cases replaces : call.Replaces uuid
      · rw [if_pos replaces]
        refine ⟨fun empty => ?_, fun both => (both.2 replaces).symm⟩
        have unset : lastGiven column uuid calls = none := empty.symm
        refine ⟨ih.mpr ?_, fun _ => unset⟩
        rintro before other after rfl _ _ given
        exact absurd unset (lastGiven_append_ne_none _ given)
      · rw [if_neg replaces]
        exact ⟨fun same => ⟨same, fun absurdly => absurd absurdly replaces⟩, And.left⟩

/-- What merging calls would give: every getter returns the last value that the calls gave, and
a call changes the row of its own contact only. -/
structure Merged (calls : List ContactCall) : Prop where
  name : ∀ uuid, (empty.callContacts calls).getContactName uuid = lastGiven .name uuid calls
  profileKey : ∀ uuid,
    (empty.callContacts calls).getContactProfileKey uuid = lastGiven .profileKey uuid calls
  avatar : ∀ uuid,
    (empty.callContacts calls).getContactAvatar uuid = lastGiven .avatarPath uuid calls
  others : ∀ before call after, calls = before ++ call :: after → ∀ uuid ≠ call.uuid,
    (empty.callContacts (before ++ [call])).findContact uuid =
      (empty.callContacts before).findContact uuid

/-- Contacts are merged exactly along the sequences of calls in which every value that a
replaced row loses is given again later. -/
theorem merged_iff (calls : List ContactCall) :
    Merged calls ↔ ∀ column uuid, Refilled column uuid calls := by
  constructor
  · intro merged column uuid
    rw [← getColumn_callContacts_iff]
    cases column with
    | name => exact merged.name uuid
    | profileKey => exact merged.profileKey uuid
    | avatarPath => exact merged.avatar uuid
  · intro refilled
    refine ⟨fun uuid => ?_, fun uuid => ?_, fun uuid => ?_, ?_⟩
    · exact (getColumn_callContacts_iff calls .name uuid).mpr (refilled _ uuid)
    · exact (getColumn_callContacts_iff calls .profileKey uuid).mpr (refilled _ uuid)
    · exact (getColumn_callContacts_iff calls .avatarPath uuid).mpr (refilled _ uuid)
    · intro before call after _ uuid other
      rw [callContacts_append_singleton]
      exact findContact_callContact_other _ other

/-- A profile fetched again: the avatar saved after the first fetch is gone. -/
theorem not_merged_fetched_again :
    ¬ Merged [.saveContact { uuid := "u", name := some "A", profileKey := some "k" },
      .saveContactAvatar "u" "/avatar_u.jpg",
      .saveContact { uuid := "u", name := some "A", profileKey := some "k" }] := by
  intro merged
  exact absurd (merged.avatar "u") (by decide)

end Database

end LegacySignal
