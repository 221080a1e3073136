import SoftPlc.Compile.Emission
import SoftPlc.Proofs.Bytecode.Linking

set_option autoImplicit false

namespace SoftPlc.Compile

open Labels

def Follows {α β : Type} (direct : Except Fault α) (result : Except Fault (β × Emitter))
    (relates : α → β → Emitter → Prop) : Prop :=
  match direct with
  | .error f => result = .error f
  | .ok a => ∃ b e, result = .ok (b, e) ∧ relates a b e

section
variable {α β γ δ : Type} {e : Emitter} {x : Except Fault α} {relates weaker : α → β → Emitter → Prop}
variable {whole : γ → δ → Emitter → Prop}

theorem follows_ok (a : α) (b : β) (e : Emitter) (relates : α → β → Emitter → Prop) (here : relates a b e) :
    Follows (.ok a) (.ok (b, e)) relates := ⟨b, e, rfl, here⟩

theorem follows_bind {f : α → Except Fault γ} {m : Emit β} {k : β → Emit δ} (first : Follows x (m e) relates)
    (second : ∀ a b e', x = .ok a → relates a b e' → Follows (f a) (k b e') whole) :
    Follows (x >>= f) ((m >>= k) e) whole := by
  cases answer : x with
  | error fault =>
    rw [answer] at first
    change (m e >>= fun both => k both.1 both.2) = .error fault
    rw [show m e = .error fault from first]
    rfl
  | ok a =>
    rw [answer] at first
    obtain ⟨b, e', made, here⟩ := first
    change Follows (f a) (m e >>= fun both => k both.1 both.2) whole
    rw [made]
    exact second a b e' answer here

theorem follows_quiet {y : Except Fault γ} {m : Emit β} {k : β → Emit δ} {b : β} {e' : Emitter}
    (made : m e = .ok (b, e')) (later : Follows y (k b e') whole) : Follows y ((m >>= k) e) whole := by
  change Follows y (m e >>= fun both => k both.1 both.2) whole
  rw [made]
  exact later

theorem follows_lift {f : α → Except Fault γ} {k : α → Emit δ}
    (later : ∀ a, x = .ok a → Follows (f a) (k a e) whole) : Follows (x >>= f) ((liftM x >>= k : Emit δ) e) whole := by
  cases answer : x with
  | error fault => rfl
  | ok a => exact later a answer

theorem follows_weaken {result : Except Fault (β × Emitter)} (follows : Follows x result relates)
    (less : ∀ a b e, x = .ok a → relates a b e → weaker a b e) : Follows x result weaker := by
  cases answer : x with
  | error fault =>
    rw [answer] at follows
    exact follows
  | ok a =>
    rw [answer] at follows
    obtain ⟨b, e, made, here⟩ := follows
    exact ⟨b, e, made, less a b e answer here⟩

theorem follows_return {f : α → γ} {result : Except Fault (β × Emitter)} {ends : γ → β → Emitter → Prop}
    (follows : Follows x result relates) (less : ∀ a b e, x = .ok a → relates a b e → ends (f a) b e) :
    Follows (x >>= fun a => pure (f a)) result ends := by
  have weaker : Follows x result fun a b e => ends (f a) b e := follows_weaken follows less
  cases x <;> exact weaker

theorem follows_in_line (line : UInt16) {m : Emit β}
    (inside : Follows x (m { e with toContext := e.toContext.atLine line }) relates) :
    Follows (withLine line x) (inLine line m e) relates := by
  unfold inLine
  generalize m { e with toContext := e.toContext.atLine line } = result at inside
  cases x with
  | error fault =>
    rw [show result = .error fault from inside]
    rfl
  | ok a =>
    obtain ⟨b, e', rfl, here⟩ := inside
    exact ⟨b, e', rfl, here⟩

theorem room_error (line : UInt16) (stop goal : Nat) (le : stop ≤ goal) (f : Fault)
    (refused : checkRoom line stop = .error f) : checkRoom line goal = .error f := by
  unfold checkRoom at refused ⊢
  by_cases fits : stop ≤ Bytecode.maxInstructions
  · rw [if_pos fits] at refused
    cases refused
  · rw [if_neg fits] at refused
    rwa [if_neg (by omega)]

-- One check in front of several instructions does for all of them.
theorem follows_room (line : UInt16) (stop goal : Nat) (le : stop ≤ goal) {rest : Unit → Except Fault γ} {m : Emit β}
    {k : β → Emit δ} {reached : Unit → β → Emitter → Prop} (first : Follows (checkRoom line stop) (m e) reached)
    (second : ∀ b e', reached () b e' → Follows (checkRoom line goal >>= rest) (k b e') whole) :
    Follows (checkRoom line goal >>= rest) ((m >>= k) e) whole := by
  have split : (checkRoom line goal >>= rest) = (checkRoom line stop >>= fun _ => checkRoom line goal >>= rest) := by
    cases checked : checkRoom line stop with
    | error f =>
      rw [room_error line stop goal le f checked]
      rfl
    | ok u => rfl
  rw [split]
  exact follows_bind first fun _ b e' _ => second b e'

end

-- No symbol is placed twice, those that are open are not placed, and none is ahead.
structure Book (opened : List Int) (labels : Labels) : Prop where
  once : (labels.places.map (·.1) ++ opened).Nodup
  known : ∀ symbol ∈ labels.places.map (·.1) ++ opened, symbol ≤ labels.last

structure Completes (opened : List Int) (labels : Labels) (places : List (Int × Nat)) : Prop where
  keeps : ∀ p ∈ labels.places, places.lookup p.1 = some p.2
  places : ∀ symbol ∈ opened, (places.lookup symbol).isSome = true

-- The code that has been emitted is this one wherever the symbols go that are open. Those that are known
-- have been placed where it is said.
structure Drafted (opened : List Int) (known : List (Int × Nat)) (context : Context) (stop : Nat)
    (code : (Int → Nat) → List Instruction) (e : Emitter) : Prop where
  inside : e.toContext = context
  length : e.code.length = stop
  room : stop ≤ Bytecode.maxInstructions
  behind : ∀ jump ∈ e.labels.pending, jump.address < stop
  known : known ⊆ e.labels.places
  book : Book opened e.labels
  links : ∀ places, Completes opened e.labels places →
    resolveAll places e.labels.pending e.code = (none, code (placeOf places))

def Level (opened : List Int) (context : Context) : Prop :=
  ∀ loop, context.loops.head? = some loop → loop.exit ∈ opened ∧ loop.residue = context.residue

theorem level_more (opened more : List Int) (context : Context) (level : Level opened context) (inside : opened ⊆ more) :
    Level more context := fun loop head => ⟨inside (level loop head).1, (level loop head).2⟩

theorem draft_start : Drafted [] [] {} 0 (fun _ => []) {} where
  inside := rfl
  length := rfl
  room := Nat.zero_le _
  behind := nofun
  known := List.Subset.refl _
  book := ⟨List.nodup_nil, nofun⟩
  links := fun _ _ => rfl

section
variable {opened : List Int} {known : List (Int × Nat)} {context : Context} {stop : Nat}
variable {code : (Int → Nat) → List Instruction} {e : Emitter}

theorem draft_same (w : Drafted opened known context stop code e) (less : List (Int × Nat)) (stop' : Nat)
    (code' : (Int → Nat) → List Instruction) (inside : less ⊆ known) (length : stop = stop')
    (same : ∀ goes, (∀ p ∈ known, goes p.1 = p.2) → code goes = code' goes) :
    Drafted opened less context stop' code' e := by
  subst length
  refine { w with known := List.Subset.trans inside w.known, links := fun places completes => ?_ }
  rw [w.links places completes, same]
  intro p member
  rw [placeOf, completes.keeps p (w.known member)]
  rfl

theorem draft_perm (w : Drafted opened known context stop code e) (opened' : List Int) (perm : opened.Perm opened') :
    Drafted opened' known context stop code e := by
  have both : (e.labels.places.map (·.1) ++ opened).Perm (e.labels.places.map (·.1) ++ opened') := perm.append_left _
  have book : Book opened' e.labels :=
    ⟨both.nodup_iff.mp w.book.once, fun s member => w.book.known s (both.mem_iff.mpr member)⟩
  refine { w with book, links := fun places completes => w.links places ⟨completes.keeps, fun s member => ?_⟩ }
  exact completes.places s (perm.mem_iff.mp member)

theorem draft_code_length (w : Drafted opened known context stop code e) (places : List (Int × Nat))
    (completes : Completes opened e.labels places) : (code (placeOf places)).length = stop := by
  have length := resolve_length places e.labels.pending e.code
  rwa [w.links places completes, w.length] at length

theorem draft_append (w : Drafted opened known context stop code e) (i : Instruction)
    (room : stop + 1 ≤ Bytecode.maxInstructions) :
    Drafted opened known context (stop + 1) (fun goes => code goes ++ [i]) { e with code := e.code ++ [i] } where
  inside := w.inside
  length := by rw [List.length_append, w.length]; rfl
  room := room
  behind := fun jump waits => Nat.lt_succ_of_lt (w.behind jump waits)
  known := w.known
  book := w.book
  links := fun places completes =>
    resolve_front places _ _ _ _ (fun jump waits => w.length ▸ w.behind jump waits) (w.links places completes)

theorem room_there (line : UInt16) (w : Drafted opened known context stop code e) : checkRoom line stop = .ok () :=
  if_pos w.room

theorem emit_follows (w : Drafted opened known context stop code e) (i : Instruction) :
    Follows (checkRoom context.line (stop + 1)) (emit i e) fun _ address e' =>
      address = stop ∧ e' = { e with code := e.code ++ [i] } ∧ stop + 1 ≤ Bytecode.maxInstructions := by
  have same : emit i e = (checkRoom context.line (stop + 1) >>= fun _ => .ok (stop, { e with code := e.code ++ [i] })) := by
    rw [← w.length, ← w.inside]
    rfl
  rw [same]
  by_cases room : stop + 1 ≤ Bytecode.maxInstructions
  · rw [show checkRoom context.line (stop + 1) = .ok () from if_pos room]
    exact follows_ok () stop _ _ ⟨rfl, rfl, room⟩
  · rw [checkRoom, if_neg room]
    rfl

theorem emit_all_follows (w : Drafted opened known context stop code e) (more : List Instruction) :
    Follows (checkRoom context.line (stop + more.length)) (emitAll more e) fun _ _ e' =>
      Drafted opened known context (stop + more.length) (fun goes => code goes ++ more) e' := by
  induction more generalizing stop code e with
  | nil =>
    have same : Drafted opened known context stop (fun goes => code goes ++ []) e := by simpa using w
    rw [List.length_nil, Nat.add_zero, room_there context.line w]
    exact follows_ok () () e _ same
  | cons i rest ih =>
    have length : stop + (i :: rest).length = stop + 1 + rest.length := by
      rw [List.length_cons]
      omega
    rw [length, ← bind_pure (checkRoom _ _), emitAll]
    refine follows_room context.line (stop + 1) _ (by omega) (emit_follows w i) fun address e' made => ?_
    obtain ⟨rfl, rfl, room⟩ := made
    rw [bind_pure]
    refine follows_weaken (ih (draft_append w i room)) fun _ _ e' _ later => ?_
    simpa using later

theorem emit_jump_follows (w : Drafted opened known context stop code e) (i : Instruction) (symbol : Int)
    (jump : Nat → Instruction) (jumps : ∀ address, i.retarget? address = some (jump address))
    (placed : symbol ∈ opened ∨ symbol ∈ known.map (·.1)) :
    Follows (checkRoom context.line (stop + 1)) (emitJump i symbol e) fun _ _ e' =>
      Drafted opened known context (stop + 1) (fun goes => code goes ++ [jump (goes symbol)]) e' := by
  rw [← bind_pure (checkRoom _ _), emitJump]
  refine follows_bind (emit_follows w i) fun _ address e' _ made => ?_
  obtain ⟨rfl, rfl, room⟩ := made
  refine follows_ok () () _ _ ?_
  have v := draft_append w i room
  have pending : insertPending ⟨address, some e.line, symbol⟩ e.labels.pending =
      e.labels.pending ++ [⟨address, some e.line, symbol⟩] := insert_last _ _ w.behind
  refine { v with book := ⟨w.book.once, w.book.known⟩, behind := ?_, links := fun places completes => ?_ }
  · intro other waits
    simp only [await, pending, List.mem_append, List.mem_singleton] at waits
    rcases waits with before | rfl
    · exact v.behind other before
    · exact Nat.lt_succ_self _
  · have found : places.lookup symbol = some (placeOf places symbol) := by
      rw [placeOf]
      rcases placed with open_ | member
      · obtain ⟨a, there⟩ := Option.isSome_iff_exists.mp (completes.places symbol open_)
        rw [there]
        rfl
      · obtain ⟨p, listed, rfl⟩ := List.mem_map.mp member
        rw [completes.keeps p (w.known listed)]
        rfl
    have length := draft_code_length w places ⟨completes.keeps, completes.places⟩
    have last := resolve_last places e.labels.pending ⟨address, some e.line, symbol⟩ _ _ (placeOf places symbol)
      (jump (placeOf places symbol)) (v.links places ⟨completes.keeps, completes.places⟩) found (by simp [length, jumps])
    simp only [await, pending]
    rw [last]
    simp [← length]

theorem symbol_step (w : Drafted opened known context stop code e) :
    ∃ symbol e', newSymbol e = .ok (symbol, e') ∧ Drafted (symbol :: opened) known context stop code e' := by
  refine ⟨e.labels.last + 1, { e with labels := { e.labels with last := e.labels.last + 1 } }, rfl, ?_⟩
  have ahead (list : List Int) (all : ∀ s ∈ list, s ≤ e.labels.last) : e.labels.last + 1 ∉ list := fun member => by
    have := all _ member
    omega
  have perm : (e.labels.places.map (·.1) ++ (e.labels.last + 1) :: opened).Perm
      ((e.labels.last + 1) :: (e.labels.places.map (·.1) ++ opened)) := List.perm_middle
  refine { w with book := ⟨?_, ?_⟩, links := ?_ }
  · exact perm.nodup_iff.mpr (List.nodup_cons.mpr ⟨ahead _ w.book.known, w.book.once⟩)
  · intro s member
    rcases List.mem_cons.mp (perm.mem_iff.mp member) with rfl | before
    · exact Int.le_refl _
    · have := w.book.known s before
      simp only
      omega
  · intro places completes
    exact w.links places ⟨completes.keeps, fun s member => completes.places s (List.mem_cons_of_mem _ member)⟩

theorem place_step (front back : List Int) (symbol : Int)
    (w : Drafted (front ++ symbol :: back) known context stop code e) :
    ∃ e', place symbol e = .ok ((), e') ∧ Drafted (front ++ back) ((symbol, stop) :: known) context stop code e' := by
  refine ⟨{ e with labels := e.labels.place symbol e.code.length }, rfl, ?_⟩
  have perm : (e.labels.places.map (·.1) ++ (front ++ symbol :: back)).Perm
      (symbol :: (e.labels.places.map (·.1) ++ (front ++ back))) := by
    simpa using (List.perm_middle : ((e.labels.places.map (·.1) ++ front) ++ symbol :: back).Perm _)
  have once := perm.nodup_iff.mp w.book.once
  refine { w with book := ⟨once, fun s member => w.book.known s (perm.mem_iff.mpr member)⟩, known := ?_, links := ?_ }
  · intro p member
    rcases List.mem_cons.mp member with rfl | before
    · exact w.length ▸ List.mem_cons_self
    · exact List.mem_cons_of_mem _ (w.known before)
  · intro places completes
    refine w.links places ⟨fun p member => completes.keeps p (List.mem_cons_of_mem _ member), fun s member => ?_⟩
    rcases List.mem_cons.mp ((List.perm_middle : (front ++ symbol :: back).Perm _).mem_iff.mp member) with rfl | other
    · rw [completes.keeps (s, e.code.length) List.mem_cons_self]
      rfl
    · exact completes.places s other

theorem symbols_step (w : Drafted opened known context stop code e) (n : Nat) :
    ∃ symbols e', newSymbols n e = .ok (symbols, e') ∧ symbols.length = n ∧
      Drafted (symbols ++ opened) known context stop code e' := by
  induction n generalizing opened e with
  | zero => exact ⟨[], e, rfl, rfl, w⟩
  | succ n ih =>
    obtain ⟨first, e₁, made, v⟩ := symbol_step w
    obtain ⟨others, e₂, rest, length, u⟩ := ih v
    refine ⟨first :: others, e₂, ?_, congrArg Nat.succ length, draft_perm u _ List.perm_middle⟩
    rw [newSymbols]
    change (newSymbol e >>= fun both => (newSymbols n >>= fun others => pure (both.1 :: others)) both.2) = _
    rw [made]
    change (newSymbols n e₁ >>= fun both => pure (first :: both.1, both.2)) = _
    rw [rest]
    rfl

theorem lookup_placed (places : List (Int × Nat)) (once : (places.map (·.1)).Nodup) (p : Int × Nat)
    (member : p ∈ places) : places.lookup p.1 = some p.2 := by
  obtain ⟨front, back, rfl⟩ := List.append_of_mem member
  refine List.lookup_eq_some_iff.mpr ⟨front, back, rfl, fun q before => ?_⟩
  rw [List.map_append, List.nodup_append] at once
  have apart := once.2.2 q.1 (List.mem_map_of_mem before) p.1 (by simp)
  simpa using Ne.symm apart

theorem draft_finish (w : Drafted [] known context stop code e) :
    (∀ jump ∈ e.labels.pending, ∃ address i, e.labels.places.lookup jump.symbol = some address ∧
      e.code[jump.address]? = some i ∧ (i.retarget? address).isSome = true) ∧
      e.finish = .ok (code (placeOf e.labels.places)) := by
  have once : (e.labels.places.map (·.1)).Nodup := by simpa using w.book.once
  have completes : Completes [] e.labels e.labels.places := ⟨lookup_placed _ once, nofun⟩
  have linked := w.links e.labels.places completes
  exact ⟨resolved_jumps _ _ _ _ linked, by simp only [Emitter.finish, link, linked]⟩

theorem draft_changed (w : Drafted opened known context stop code e) (change : Context → Context) :
    Drafted opened known (change context) stop code { e with toContext := change e.toContext } :=
  { w with inside := congrArg change w.inside }

theorem enter_follows (w : Drafted opened known context stop code e) (exit : Int) :
    Follows (checkLoops context.loops.length) (enterLoop exit e) fun _ _ e' =>
      Drafted opened known (context.enter exit) stop code e' := by
  have v := draft_changed w (·.enter exit)
  have same : enterLoop exit e = (checkLoops context.loops.length >>= fun _ =>
      .ok ((), { e with toContext := e.toContext.enter exit })) := by
    rw [← w.inside]
    rfl
  rw [same]
  cases checkLoops context.loops.length with
  | error f => rfl
  | ok u => exact follows_ok u () _ _ v

section
variable {γ δ : Type} {x : Except Fault γ} {rest : Unit → Except Fault γ} {whole : γ → δ → Emitter → Prop}

theorem room_then (line : UInt16) (w : Drafted opened known context stop code e) {result : Except Fault (δ × Emitter)}
    (next : Follows (rest ()) result whole) : Follows (checkRoom line stop >>= rest) result whole := by
  rw [room_there line w]
  exact next

theorem emit_all_then {k : Unit → Emit δ} (w : Drafted opened known context stop code e) (more : List Instruction)
    (goal : Nat) (le : stop + more.length ≤ goal)
    (next : ∀ e', Drafted opened known context (stop + more.length) (fun goes => code goes ++ more) e' →
      Follows (checkRoom context.line goal >>= rest) (k () e') whole) :
    Follows (checkRoom context.line goal >>= rest) ((emitAll more >>= k) e) whole :=
  follows_room context.line _ goal le (emit_all_follows w more) fun _ e' v => next e' v

theorem emit_jump_then {k : Unit → Emit δ} (w : Drafted opened known context stop code e) (i : Instruction) (symbol : Int)
    (jump : Nat → Instruction) (jumps : ∀ address, i.retarget? address = some (jump address))
    (placed : symbol ∈ opened ∨ symbol ∈ known.map (·.1)) (goal : Nat) (le : stop + 1 ≤ goal)
    (next : ∀ e', Drafted opened known context (stop + 1) (fun goes => code goes ++ [jump (goes symbol)]) e' →
      Follows (checkRoom context.line goal >>= rest) (k () e') whole) :
    Follows (checkRoom context.line goal >>= rest) ((emitJump i symbol >>= k) e) whole :=
  follows_room context.line _ goal le (emit_jump_follows w i symbol jump jumps placed) fun _ e' v => next e' v

theorem symbol_then {k : Int → Emit δ} (w : Drafted opened known context stop code e)
    (next : ∀ symbol e', Drafted (symbol :: opened) known context stop code e' → Follows x (k symbol e') whole) :
    Follows x ((newSymbol >>= k) e) whole := by
  obtain ⟨symbol, e', made, v⟩ := symbol_step w
  exact follows_quiet made (next symbol e' v)

theorem place_then {k : Unit → Emit δ} (front back : List Int) (symbol : Int)
    (w : Drafted (front ++ symbol :: back) known context stop code e)
    (next : ∀ e', Drafted (front ++ back) ((symbol, stop) :: known) context stop code e' → Follows x (k () e') whole) :
    Follows x ((place symbol >>= k) e) whole := by
  obtain ⟨e', made, v⟩ := place_step front back symbol w
  exact follows_quiet made (next e' v)

theorem change_then {k : Unit → Emit δ} (w : Drafted opened known context stop code e) (change : Context → Context)
    (next : ∀ e', Drafted opened known (change context) stop code e' → Follows x (k () e') whole) :
    Follows x ((changeContext change >>= k) e) whole :=
  follows_quiet rfl (next _ (draft_changed w change))

end

end

end SoftPlc.Compile
