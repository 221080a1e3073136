import SoftPlc.Proofs.Store.Gaps

set_option autoImplicit false

namespace SoftPlc.SourceArena

inductive Request where
  | upload (id : Nat) (bytes : Bytes)
  | release (id : Nat)
  | compact

def after (a : SourceArena) : Request → SourceArena
  | .upload id bytes => (a.upload id bytes).2
  | .release id => a.release id
  | .compact => a.compact

def history (requests : List Request) : SourceArena := requests.foldl after {}

def Replaces (a : SourceArena) (i : Nat) : Request → Prop
  | .upload id bytes => id = i ∧ (a.upload id bytes).1 = .ok ()
  | .release id => id = i
  | .compact => False

-- A text that was stored for a program, with nothing behind it that replaces it.
def LastStored (requests : List Request) (i : Nat) (bytes : Bytes) : Prop :=
  ∃ before later, requests = before ++ .upload i bytes :: later ∧ bytes ≠ [] ∧
    ((history before).upload i bytes).1 = .ok () ∧
    ∀ between request rest, later = between ++ request :: rest →
      ¬ (history (before ++ .upload i bytes :: between)).Replaces i request

theorem history_snoc (requests : List Request) (request : Request) :
    history (requests ++ [request]) = (history requests).after request := by
  simp only [history, List.foldl_append, List.foldl_cons, List.foldl_nil]

section
variable (a : SourceArena)

theorem release_outside (id : Nat) (outside : slotCount ≤ id) : a.release id = a := by
  simp only [release, Vector.setIfInBounds_eq_of_size_le outside]

theorem after_release (id i : Nat) : (a.release id).source? i = if i = id then none else a.source? i := by
  by_cases valid : id < slotCount
  · exact source_release a id i valid
  · have outside := Nat.not_lt.mp valid
    rw [release_outside a id outside]
    by_cases same : i = id
    · subst same
      rw [if_pos rfl, source?, region?, Slots.find_outside a.regions i outside]
      rfl
    · rw [if_neg same]

theorem after_sound (request : Request) (sound : a.Sound) : (a.after request).Sound := by
  cases request with
  | upload id bytes =>
    obtain ⟨next, uploaded⟩ | ⟨f, refused⟩ := a.upload_either id bytes
    · rw [after, uploaded]
      exact (a.upload_ok next id bytes sound uploaded).1
    · rw [after, refused]
      exact sound
  | release id =>
    by_cases valid : id < slotCount
    · exact sound_release a sound id valid
    · rw [after, a.release_outside id (Nat.not_lt.mp valid)]
      exact sound
  | compact => exact (a.compact_keeps sound).1

theorem after_other (i : Nat) (request : Request) (sound : a.Sound) (other : ¬ a.Replaces i request) :
    (a.after request).source? i = a.source? i := by
  cases request with
  | upload id bytes =>
    obtain ⟨next, uploaded⟩ | ⟨f, refused⟩ := a.upload_either id bytes
    · have different : i ≠ id := fun same => other ⟨same.symm, congrArg Prod.fst uploaded⟩
      rw [after, uploaded]
      exact ((a.upload_ok next id bytes sound uploaded).2 i).trans (if_neg different)
    · rw [after, refused]
  | release id =>
    have different : i ≠ id := fun same => other same.symm
    exact (a.after_release id i).trans (if_neg different)
  | compact => exact (a.compact_keeps sound).2.1 i

theorem after_upload (i : Nat) (bytes : Bytes) (sound : a.Sound) (accepted : (a.upload i bytes).1 = .ok ()) :
    (a.after (.upload i bytes)).source? i = if bytes = [] then none else some bytes := by
  have stored := (a.upload_ok _ i bytes sound (Prod.ext accepted rfl)).2 i
  rwa [if_pos rfl] at stored

end

theorem history_sound (requests : List Request) : (history requests).Sound := by
  induction requests using List.reverseRecOn with
  | nil => exact sound_empty
  | append_singleton requests request ih =>
    rw [history_snoc]
    exact after_sound _ request ih

theorem last_stored_now (requests : List Request) (i : Nat) (bytes : Bytes) (filled : bytes ≠ [])
    (accepted : ((history requests).upload i bytes).1 = .ok ()) :
    LastStored (requests ++ [.upload i bytes]) i bytes := by
  refine ⟨requests, [], rfl, filled, accepted, ?_⟩
  intro between request rest none
  simp at none

theorem last_stored_replaced (requests : List Request) (request : Request) (i : Nat) (bytes : Bytes)
    (replaces : (history requests).Replaces i request) (stored : LastStored (requests ++ [request]) i bytes) :
    request = .upload i bytes ∧ bytes ≠ [] := by
  obtain ⟨before, later, split, filled, _, kept⟩ := stored
  rcases List.eq_nil_or_concat' later with rfl | ⟨between, last, rfl⟩
  · exact ⟨(List.append_inj' split rfl).2 |> List.singleton_inj.mp, filled⟩
  · have whole : requests ++ [request] = (before ++ .upload i bytes :: between) ++ [last] := by
      simpa using split
    obtain ⟨front, same⟩ := List.append_inj' whole rfl
    cases List.singleton_inj.mp same
    exact absurd (front ▸ replaces) (kept between request [] rfl)

theorem last_stored_other (requests : List Request) (request : Request) (i : Nat) (bytes : Bytes)
    (other : ¬ (history requests).Replaces i request) :
    LastStored (requests ++ [request]) i bytes ↔ LastStored requests i bytes := by
  constructor
  · rintro ⟨before, later, split, filled, accepted, kept⟩
    rcases List.eq_nil_or_concat' later with rfl | ⟨between, last, rfl⟩
    · obtain ⟨rfl, same⟩ := List.append_inj' split rfl
      cases List.singleton_inj.mp same
      exact absurd ⟨rfl, accepted⟩ other
    · have whole : requests ++ [request] = (before ++ .upload i bytes :: between) ++ [last] := by
        simpa using split
      refine ⟨before, between, (List.append_inj' whole rfl).1, filled, accepted, ?_⟩
      intro front next rest inside
      exact kept front next (rest ++ [last]) (by simp [inside])
  · rintro ⟨before, later, rfl, filled, accepted, kept⟩
    refine ⟨before, later ++ [request], by simp, filled, accepted, ?_⟩
    intro between next rest split
    rcases List.eq_nil_or_concat' rest with rfl | ⟨front, last, rfl⟩
    · obtain ⟨rfl, same⟩ := List.append_inj' split rfl
      cases List.singleton_inj.mp same
      exact other
    · have whole : later ++ [request] = (between ++ next :: front) ++ [last] := by
        simpa using split
      exact kept between next front (List.append_inj' whole rfl).1

theorem replaced_source (requests : List Request) (request : Request) (i : Nat) (bytes : Bytes)
    (replaces : (history requests).Replaces i request) :
    ((history requests).after request).source? i = some bytes ↔ LastStored (requests ++ [request]) i bytes := by
  cases request with
  | upload id text =>
    obtain ⟨own, accepted⟩ := replaces
    subst own
    rw [after_upload _ id text (history_sound requests) accepted]
    constructor
    · intro found
      by_cases empty : text = []
      · rw [if_pos empty] at found
        cases found
      · rw [if_neg empty] at found
        cases found
        exact last_stored_now requests id bytes empty accepted
    · intro stored
      obtain ⟨same, filled⟩ := last_stored_replaced requests (.upload id text) id bytes ⟨rfl, accepted⟩ stored
      cases same
      exact if_neg filled
  | release id =>
    constructor
    · intro found
      rw [after, after_release, if_pos replaces.symm] at found
      cases found
    · intro stored
      cases (last_stored_replaced requests _ i bytes replaces stored).1
  | compact => cases replaces

theorem history_source (requests : List Request) (i : Nat) (bytes : Bytes) :
    (history requests).source? i = some bytes ↔ LastStored requests i bytes := by
  induction requests using List.reverseRecOn with
  | nil =>
    constructor
    · intro found
      have empty : (history []).source? i = none := by
        rw [history, List.foldl_nil, source?, region_empty]
        rfl
      cases empty.symm.trans found
    · rintro ⟨before, later, split, _⟩
      simp at split
  | append_singleton requests request ih =>
    rw [history_snoc]
    by_cases replaces : (history requests).Replaces i request
    · exact replaced_source requests request i bytes replaces
    · rw [after_other _ i request (history_sound requests) replaces, ih, last_stored_other requests request i bytes replaces]

theorem upload_accepts_iff (a : SourceArena) (id : Nat) (bytes : Bytes) (sound : a.Sound) (valid : id < slotCount)
    (filled : bytes ≠ []) :
    (a.upload id bytes).1 = .ok () ↔ bytes.length ≤ capacity - a.heldByOthers id := by
  constructor
  · intro accepted
    obtain ⟨_, ⟨empty, _⟩ | ⟨_, fits, _⟩⟩ := a.upload_cases _ id bytes (Prod.ext accepted rfl)
    · exact absurd empty filled
    · rwa [others_total a sound (some id)] at fits
  · intro fits
    have positive := List.length_pos_iff.mpr filled
    obtain ⟨next, uploaded⟩ := a.upload_accepts id bytes sound valid (by omega)
    exact congrArg Prod.fst uploaded

-- After any history the arena is a table of texts: it answers with the last text that was stored
-- for a program, takes a text exactly where it fits beside the others, and changes nothing where it
-- does not. Regions lie apart in the buffer; moving them changes no text and leaves one gap; and a
-- text moves others only where it could be put nowhere else.
theorem history_is_table (requests : List Request) :
    let a := history requests
    (∀ i bytes, a.source? i = some bytes ↔ LastStored requests i bytes) ∧
      (∀ id bytes, id < slotCount → bytes ≠ [] →
        ((a.upload id bytes).1 = .ok () ↔ bytes.length ≤ 8000 - a.heldByOthers id)) ∧
      (∀ id bytes f, (a.upload id bytes).1 = .error f → history (requests ++ [.upload id bytes]) = a) ∧
      (∀ i r, a.region? i = some r → r.offset + r.size ≤ 8000) ∧
      (∀ i j r s, i ≠ j → a.region? i = some r → a.region? j = some s →
        r.offset + r.size ≤ s.offset ∨ s.offset + s.size ≤ r.offset) ∧
      (∀ i, a.compact.source? i = a.source? i) ∧ a.compact.largestGap = a.compact.free ∧
      (∀ id bytes next j, a.upload id bytes = (.ok (), next) → j ≠ id → next.region? j ≠ a.region? j →
        ∀ start, ¬ a.Room id start bytes.length) := by
  intro a
  have sound : a.Sound := history_sound requests
  refine ⟨history_source requests, ?_, ?_, ?_, ?_, ?_, a.compact_largest_gap sound, ?_⟩
  · intro id bytes valid filled
    exact a.upload_accepts_iff id bytes sound valid filled
  · intro id bytes f refused
    rw [history_snoc]
    exact a.upload_refused id bytes f refused
  · intro i r found
    exact (sound.inside i r found).2
  · exact sound.apart
  · exact (a.compact_keeps sound).2.1
  · intro id bytes next j uploaded other moved start room
    exact moved (a.upload_stays next id start bytes sound uploaded room j other)

end SoftPlc.SourceArena
