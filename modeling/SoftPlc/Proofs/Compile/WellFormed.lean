import SoftPlc.Proofs.Bytecode.Sound
import SoftPlc.Proofs.Compile.Emitted
import SoftPlc.Proofs.Compile.Pointing
import SoftPlc.Proofs.Compile.Stores

set_option autoImplicit false

namespace SoftPlc

-- A program that ends in HALT, fits its limits and refers to its own variables and addresses only. Its variables
-- have names of their own and start with values of their types, and the constants among them are not stored to.
structure Bytecode.WellFormed (b : Bytecode) : Prop where
  nonempty : 1 ≤ b.code.length
  room : b.code.length ≤ 1024
  ends : b.code.getLast? = some .halt
  refers : ∀ i ∈ b.code, i.Refers b.vars.length b.code.length
  few : b.vars.length ≤ 32
  names : (b.vars.map (·.name)).Nodup
  typed : ∀ v ∈ b.vars, v.initial.dataType = v.dataType
  open_ : ∀ index v, .store index ∈ b.code → b.vars[index]? = some v → v.variableClass ≠ .constant

namespace Compile

theorem declare_all_names (before vars : List Variable) (ds : List Declaration) (compiled : declareAll before ds = .ok vars)
    (apart : (before.map (·.name)).Nodup) : (vars.map (·.name)).Nodup := by
  induction ds generalizing before with
  | nil =>
    cases compiled
    exact apart
  | cons d rest ih =>
    simp only [declareAll, bind_ok, with_line_ok] at compiled
    obtain ⟨v, declared, others⟩ := compiled
    have named := (declare_ok before d v declared).2.1
    simp only [declare, bind_ok, refuse_ok] at declared
    refine ih (before ++ [v]) others ?_
    rw [List.map_append, List.nodup_append]
    refine ⟨apart, by simp, fun name earlier name' new same => ?_⟩
    obtain ⟨w, member, rfl⟩ := List.mem_map.mp earlier
    cases List.mem_singleton.mp new
    exact declared.1 (List.any_eq_true.mpr ⟨w, member, by simp [same, named]⟩)

theorem stores_open (p : SourceProgram) (b : Bytecode) (made : p.compile = .ok b) (index : Nat) (v : Variable)
    (stores : .store index ∈ b.code) (there : b.vars[index]? = some v) : v.variableClass ≠ .constant := by
  obtain ⟨items, _, body, _, _, code⟩ := compile_ok p b made
  have listed : .op (.store index) ∈ items := by
    rw [code] at stores
    rcases List.mem_append.mp stores with inside | last
    · obtain ⟨item, member, same⟩ := List.mem_map.mp inside
      cases item with
      | op i =>
        cases same
        exact member
      | exit => cases same
    · cases List.mem_singleton.mp last
  obtain ⟨_, _, name, w, _, found, open_⟩ := store_set_block b.vars 0 0 p.body items body index listed
  cases (lookup_index b.vars name index w found).symm.trans there
  exact open_

theorem program_well_formed (p : SourceProgram) (b : Bytecode) (made : p.compile = .ok b) : b.WellFormed := by
  obtain ⟨items, declared, _, room, _, code⟩ := compile_ok p b made
  have length : b.code.length = items.length + 1 := by simp [code]
  refine ⟨by omega, by rw [length]; exact room, by simp [code], compiled_refers p b made, ?_, ?_, ?_, stores_open p b made⟩
  · exact declare_all_room [] b.vars p.declarations declared (Nat.zero_le _)
  · exact declare_all_names [] b.vars p.declarations declared List.nodup_nil
  · exact declare_all_typed [] b.vars p.declarations declared nofun

-- The compiler gives a well-formed program or a fault that is not an internal one. Made by emitting jumps to symbols
-- and linking them, the result is the same: when all of the code is there, every symbol that a jump waits for has
-- been placed, and every address that waits for one holds a jump.
theorem compiler_output_well_formed (source : String) :
    (∀ f, compile source = .error f → f.kind ≠ .internalError) ∧
      (∀ b, compile source = .ok b → b.WellFormed) ∧
      (parse (scan source) >>= SourceProgram.link) = compile source ∧
      ∀ p vars e, parse (scan source) = .ok p → declareAll [] p.declarations = .ok vars → p.emit vars = .ok e →
        ∀ jump ∈ e.labels.pending, ∃ address i, e.labels.places.lookup jump.symbol = some address ∧
          e.code[jump.address]? = some i ∧ (i.retarget? address).isSome = true := by
  refine ⟨fun f refused => (compile_blames source f refused).1, fun b made => ?_, ?_,
    fun p vars e _ _ => emitted_jumps vars p e⟩
  · obtain ⟨p, _, compiled⟩ := (bind_ok _ _ _).mp made
    exact program_well_formed p b compiled
  · cases parsed : parse (scan source) with
    | error f => simp [compile, parsed, bind, Except.bind]
    | ok p => simpa [compile, parsed, bind, Except.bind] using link_compiles p

theorem loop_with_exit_is_well_formed :
    ∃ b, compile "VAR i : INT; END_VAR FOR i := 1 TO 3 DO IF i > 1 THEN EXIT; END_IF; END_FOR" = .ok b ∧
      b.code.length = 20 ∧ b.WellFormed := by
  obtain ⟨b, accepted, length⟩ := accepted_with
    "VAR i : INT; END_VAR FOR i := 1 TO 3 DO IF i > 1 THEN EXIT; END_IF; END_FOR" (fun b => b.code.length = 20)
    (by decide +kernel)
  exact ⟨b, accepted, length, (compiler_output_well_formed _).2.1 b accepted⟩

end Compile

end SoftPlc
