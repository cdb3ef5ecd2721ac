import Minilang.ClassFile.Machine
import Minilang.Proofs.Decoding
import Minilang.Proofs.TypeAnalysis

/-! Code that passed the type analysis runs safely. Stack and locals of the machine always have
the types of the instruction it is about to execute, so it never reaches outside its memory and
never runs past the last instruction, whatever the host answers. -/

namespace Minilang.ClassFile

open Machine (Console Run)

private theorem split_at {byte : UInt8} {x y x' y' : Bytes} (before : byte ∉ x') (behind : byte ∉ y')
    (same : x ++ byte :: y = x' ++ byte :: y') : x = x' ∧ y = y' := by
  induction x generalizing x' with
  | nil =>
    cases x' with
    | nil => exact ⟨rfl, by simpa using same⟩
    | cons first rest =>
      have head : byte = first := (List.cons.inj same).1
      exact (before (head ▸ List.mem_cons_self)).elim
  | cons first rest ih =>
    cases x' with
    | nil =>
      obtain ⟨-, tail⟩ := List.cons.inj same
      exact (behind (tail ▸ List.mem_append_right rest List.mem_cons_self)).elim
    | cons first' rest' =>
      obtain ⟨head, tail⟩ := List.cons.inj same
      obtain ⟨rfl, rfl⟩ := ih (fun member => before (List.mem_cons_of_mem _ member)) tail
      exact ⟨by rw [head], rfl⟩

/-- A member is known by its text when neither a dot nor a colon is part of a name. -/
theorem MemberRef.text_inj {ref known : MemberRef} (owner : 46 ∉ known.owner ∧ 58 ∉ known.owner)
    (name : 46 ∉ known.name ∧ 58 ∉ known.name)
    (descriptor : 46 ∉ known.descriptor ∧ 58 ∉ known.descriptor) (same : ref.text = known.text) :
    ref = known := by
  obtain ⟨o, n, d⟩ := ref
  obtain ⟨o', n', d'⟩ := known
  have dot : ("." : Bytes) = [46] := rfl
  have colon : (":" : Bytes) = [58] := rfl
  simp only [MemberRef.text, dot, colon, List.append_assoc, List.singleton_append] at same
  simp only at owner name descriptor
  have noDot : (46 : UInt8) ∉ n' ++ 58 :: d' := by simp [name.1, descriptor.1]
  obtain ⟨rfl, rest⟩ := split_at owner.1 noDot same
  obtain ⟨rfl, rfl⟩ := split_at name.2 descriptor.2 rest
  rfl

/-- What a position of a type can hold: an integer where the type says so. -/
def VType.Holds (type : VType) (value : Value) : Prop := type = .int → ∃ n, value = .int n

/-- Stack and locals of the machine have the given types. -/
structure Agrees (types : TypeState) (state : MachineState) : Prop where
  stack : List.Forall₂ VType.Holds types.stack state.stack
  size : types.locals.size = state.locals.size
  locals : ∀ (slot : Nat) (type : VType) (value : Value), types.locals[slot]? = some type →
    state.locals[slot]? = some value → type.Holds value

theorem Agrees.covered {known types : TypeState} {state : MachineState} (agrees : Agrees types state)
    (covers : known.Covers types) : Agrees known state := by
  refine ⟨covers.stack ▸ agrees.stack, covers.size.trans agrees.size, ?_⟩
  intro slot type value found held isInt
  have settled : types.locals[slot]? = some type := covers.known found (by simp [isInt])
  exact agrees.locals slot type value settled held isInt

private theorem Agrees.push {types : TypeState} {state : MachineState} (agrees : Agrees types state)
    {type : VType} {value : Value} (holds : type.Holds value) :
    Agrees (types.push type) (state.push value) :=
  ⟨.cons holds agrees.stack, agrees.size, agrees.locals⟩

private theorem Agrees.restack {locals : Array VType} {stack stack' : List VType}
    {state : MachineState} {values : List Value} (agrees : Agrees ⟨locals, stack⟩ state)
    (typed : List.Forall₂ VType.Holds stack' values) :
    Agrees ⟨locals, stack'⟩ { state with stack := values } :=
  ⟨typed, agrees.size, agrees.locals⟩

private theorem Agrees.store {locals : Array VType} {stack : List VType} {type : VType}
    {state : MachineState} {value : Value} {values : List Value}
    (agrees : Agrees ⟨locals, type :: stack⟩ state) (top : state.stack = value :: values)
    (slot : Nat) :
    Agrees ⟨locals.setIfInBounds slot type, stack⟩
      { state with stack := values, locals := state.locals.setIfInBounds slot value } := by
  have typed := agrees.stack
  rw [top] at typed
  obtain ⟨holds, rest⟩ := List.forall₂_cons.mp typed
  refine ⟨rest, by simpa using agrees.size, ?_⟩
  intro other found held present there
  simp only [Array.getElem?_setIfInBounds] at present there
  by_cases same : slot = other
  · simp only [same, if_true] at present there
    split at present <;> split at there <;> simp_all
  · simp only [same, if_false] at present there
    exact agrees.locals other found held present there

/-- Shuffling does the same to types and values. -/
theorem Shuffle.apply_forall₂ {α β : Type} {r : α → β → Prop} {kind : Shuffle} {xs xs' : List α}
    {ys : List β} (related : List.Forall₂ r xs ys) (done : kind.apply xs = some xs') :
    ∃ ys', kind.apply ys = some ys' ∧ List.Forall₂ r xs' ys' :=
  match kind, related, done with
  | .pop, .cons _ rest, rfl => ⟨_, rfl, rest⟩
  | .pop2, .cons _ (.cons _ rest), rfl => ⟨_, rfl, rest⟩
  | .dup, .cons a rest, rfl => ⟨_, rfl, .cons a (.cons a rest)⟩
  | .dupX1, .cons a (.cons b rest), rfl => ⟨_, rfl, .cons a (.cons b (.cons a rest))⟩
  | .dupX2, .cons a (.cons b (.cons c rest)), rfl =>
    ⟨_, rfl, .cons a (.cons b (.cons c (.cons a rest)))⟩
  | .dup2, .cons a (.cons b rest), rfl => ⟨_, rfl, .cons a (.cons b (.cons a (.cons b rest)))⟩
  | .dup2X1, .cons a (.cons b (.cons c rest)), rfl =>
    ⟨_, rfl, .cons a (.cons b (.cons c (.cons a (.cons b rest))))⟩
  | .dup2X2, .cons a (.cons b (.cons c (.cons d rest))), rfl =>
    ⟨_, rfl, .cons a (.cons b (.cons c (.cons d (.cons a (.cons b rest)))))⟩
  | .swap, .cons a (.cons b rest), rfl => ⟨_, rfl, .cons b (.cons a rest)⟩

/-- Conversions of types and of values that leave integers alone keep the agreement. -/
private theorem Agrees.converted {locals : Array VType} {stack : List VType} {state : MachineState}
    {values : List Value} (agrees : Agrees ⟨locals, stack⟩ { state with stack := values })
    {f : VType → VType} (types : ∀ type, f type = .int → type = .int) {g : Value → Value}
    (ints : ∀ n, g (.int n) = .int n) :
    Agrees ⟨locals.map f, stack.map f⟩ { state with stack := values.map g } := by
  refine ⟨?_, by simpa using agrees.size, ?_⟩
  · simp only [List.forall₂_map_left_iff, List.forall₂_map_right_iff]
    refine agrees.stack.imp ?_
    intro type value holds isInt
    obtain ⟨n, rfl⟩ := holds (types type isInt)
    exact ⟨n, ints n⟩
  · intro slot type value found held isInt
    simp only [Array.getElem?_map] at found
    obtain ⟨old, present, rfl⟩ := Option.map_eq_some_iff.mp found
    exact agrees.locals slot old value present held (types old isInt)

/-- A call on an instance takes its arguments and its receiver off the stack. -/
private theorem Rule.instance_call {pool : Pool} {offset : Nat} {types after : TypeState}
    {kind : InvokeKind} {index : UInt16} {ref : MemberRef}
    (rule : Rule pool offset types (.invoke kind index) after) (instanceCall : kind ≠ .staticCall)
    (known : pool.member index = .ok ref) :
    ∃ params result args receiver stack f, methodType ref.descriptor = .ok (params, result) ∧
      Fits args params ∧ types = ⟨types.locals, args.reverse ++ receiver :: stack⟩ ∧
      (∀ type, f type = .int → type = .int) ∧
      after = TypeState.pushResult ⟨types.locals.map f, stack.map f⟩ result := by
  cases rule with
  | staticCall => exact (instanceCall rfl).elim
  | @call locals stack args receiver _ _ ref' params result found described fits =>
    rw [known] at found
    cases found
    refine ⟨params, result, args, receiver, stack, id, described, fits, rfl, fun _ same => same, ?_⟩
    simp
  | @construct locals stack args raw _ ref' params result found described fits =>
    rw [known] at found
    cases found
    refine ⟨params, result, args, .uninit raw, stack,
      fun type => if type = .uninit raw then .object ref.owner else type, described, fits, rfl, ?_, rfl⟩
    intro type isInt
    by_cases raw' : type = .uninit raw
    · simp [raw'] at isInt
    · simpa [raw'] using isInt

private theorem scannerInit_type :
    methodType scannerInit.descriptor = .ok ([.object "java/io/InputStream"], none) := rfl

private theorem nextInt_type : methodType nextInt.descriptor = .ok ([], some .int) := rfl

private theorem println_type : methodType println.descriptor = .ok ([.int], none) := rfl

/-- Why an instruction of typed code may stop: never for lack of memory or of instructions. -/
def Trouble.Benign (trouble : Trouble) : Prop :=
  match trouble with
  | .flaw reason => reason.message ≠ Flaw.fellOff.message
  | .cause reason => ∀ text, reason ≠ .badProgram text
  | .outOfBounds => False

/-- The first letter tells the message of a flaw from that of running off the end. -/
private theorem message_ne {flaw : Flaw} {byte : UInt8} (first : flaw.message.head? = some byte)
    (other : byte ≠ 101) : flaw.message ≠ Flaw.fellOff.message := by
  intro same
  rw [same] at first
  exact other (Option.some.inj first).symm

private theorem readFault_cause (fault : Machine.ReadFault) (text : Bytes) :
    fault.cause ≠ .badProgram text := by
  cases fault <;> exact nofun

/-- The result is a state of the given kind, or a stop that typed code may come to. -/
def Proceeds (good : MachineState → Prop) (result : Except Trouble MachineState) : Prop :=
  match result with
  | .error trouble => trouble.Benign
  | .ok next => good next

theorem Proceeds.mono {good better : MachineState → Prop} {result : Except Trouble MachineState}
    (proceeds : Proceeds good result) (implies : ∀ next, good next → better next) :
    Proceeds better result := by
  cases result with
  | error trouble => exact proceeds
  | ok next => exact implies next proceeds

theorem Proceeds.ite {good : MachineState → Prop} {p : Prop} [Decidable p]
    {yes no : Except Trouble MachineState} (whenYes : p → Proceeds good yes)
    (whenNo : ¬ p → Proceeds good no) : Proceeds good (if p then yes else no) := by
  split
  next holds => exact whenYes holds
  next fails => exact whenNo fails

namespace MachineState

theorem invoke_scannerInit (state : MachineState) (argument receiver : Value) (rest : List Value) :
    ({ state with stack := argument :: receiver :: rest } : MachineState).invoke scannerInit =
      if argument ≠ .stdin ∨ receiver ≠ .rawScanner then .error (.flaw .scannerSource)
      else .ok { state with
        stack := rest.map fun value => if value = .rawScanner then .scanner else value } := by
  simp only [invoke, if_true, pop, ok_bind]
  split <;> rfl

theorem invoke_nextInt (state : MachineState) (receiver : Value) (rest : List Value) :
    ({ state with stack := receiver :: rest } : MachineState).invoke nextInt =
      if receiver ≠ .scanner then .error (.flaw .notScanner)
      else match state.console.read with
        | (.error fault, _) => .error (.cause fault.cause)
        | (.ok value, console) => .ok { state with stack := .int value :: rest, console } := by
  have first : nextInt.text ≠ scannerInit.text := by decide
  simp only [invoke, if_true, if_neg first, pop, ok_bind]
  split <;> rfl

theorem invoke_println (state : MachineState) (value receiver : Value) (rest : List Value) :
    ({ state with stack := value :: receiver :: rest } : MachineState).invoke println =
      if receiver ≠ .stdout then .error (.flaw .notPrintStream)
      else match state.console.print value.toInt32 with
        | .error text => .error (.cause (.output text))
        | .ok console => .ok { state with stack := rest, console } := by
  have first : println.text ≠ scannerInit.text := by decide
  have second : println.text ≠ nextInt.text := by decide
  simp only [invoke, if_true, if_neg first, if_neg second, popInt, pop, ok_bind, pure_eq_ok]
  split <;> rfl

theorem invoke_unsupported (state : MachineState) {ref : MemberRef}
    (first : ref.text ≠ scannerInit.text) (second : ref.text ≠ nextInt.text)
    (third : ref.text ≠ println.text) :
    state.invoke ref = .error (.flaw (.unsupportedMethod ref)) := by
  simp only [invoke, if_neg first, if_neg second, if_neg third, throw_eq_error]

end MachineState

private theorem invoke_agrees {pool : Pool} {offset : Nat} {types after : TypeState}
    {kind : InvokeKind} {index : UInt16} {ref : MemberRef} {state : MachineState}
    (rule : Rule pool offset types (.invoke kind index) after) (instanceCall : kind ≠ .staticCall)
    (known : pool.member index = .ok ref) (agrees : Agrees types state) :
    Proceeds (fun next => Agrees after next ∧ next.next = state.next) (state.invoke ref) := by
  obtain ⟨params, result, args, receiver, stack, f, described, fits, shape, harmless, rfl⟩ :=
    rule.instance_call instanceCall known
  obtain ⟨next, values, locals, console⟩ := state
  rw [shape] at agrees
  by_cases isInit : ref.text = scannerInit.text
  · cases MemberRef.text_inj (by decide) (by decide) (by decide) isInit
    rw [scannerInit_type] at described
    cases described
    obtain ⟨type, _, -, none, rfl⟩ := List.forall₂_cons_right_iff.mp fits
    cases none
    obtain ⟨argument, _, -, below, rfl⟩ := List.forall₂_cons_left_iff.mp agrees.stack
    obtain ⟨object, rest, -, typed, rfl⟩ := List.forall₂_cons_left_iff.mp below
    rw [MachineState.invoke_scannerInit ⟨next, [], locals, console⟩]
    refine Proceeds.ite (fun _ => message_ne rfl (by decide)) fun _ => ⟨?_, rfl⟩
    have converted := (agrees.restack typed).converted harmless
      (g := fun value => if value = .rawScanner then .scanner else value) (fun n => rfl)
    exact converted
  by_cases isNext : ref.text = nextInt.text
  · cases MemberRef.text_inj (by decide) (by decide) (by decide) isNext
    rw [nextInt_type] at described
    cases described
    cases List.forall₂_nil_right_iff.mp fits
    obtain ⟨object, rest, -, typed, rfl⟩ := List.forall₂_cons_left_iff.mp agrees.stack
    rw [MachineState.invoke_nextInt ⟨next, [], locals, console⟩]
    refine Proceeds.ite (fun _ => message_ne rfl (by decide)) fun _ => ?_
    have converted := (agrees.restack typed).converted harmless (g := id) (fun n => rfl)
    rw [List.map_id] at converted
    split
    next fault _ _ => exact readFault_cause fault
    next value after _ =>
      refine ⟨⟨.cons (fun _ => ⟨value, rfl⟩) converted.stack, converted.size, ?_⟩, rfl⟩
      exact converted.locals
  by_cases isPrint : ref.text = println.text
  · cases MemberRef.text_inj (by decide) (by decide) (by decide) isPrint
    rw [println_type] at described
    cases described
    obtain ⟨type, _, -, none, rfl⟩ := List.forall₂_cons_right_iff.mp fits
    cases none
    obtain ⟨argument, _, -, below, rfl⟩ := List.forall₂_cons_left_iff.mp agrees.stack
    obtain ⟨object, rest, -, typed, rfl⟩ := List.forall₂_cons_left_iff.mp below
    rw [MachineState.invoke_println ⟨next, [], locals, console⟩]
    refine Proceeds.ite (fun _ => message_ne rfl (by decide)) fun _ => ?_
    have converted := (agrees.restack typed).converted harmless (g := id) (fun n => rfl)
    rw [List.map_id] at converted
    split
    next text _ => exact nofun
    next after _ => exact ⟨⟨converted.stack, converted.size, converted.locals⟩, rfl⟩
  · rw [MachineState.invoke_unsupported _ isInit isNext isPrint]
    exact message_ne rfl (by decide)

/-- Control goes on behind an instruction or to its target. -/
def Goes (body : Body) (action : Action) (behind next : Nat) : Prop :=
  action.fallsThrough = true ∧ next = behind ∨
    ∃ target, action.target? = some target ∧ body.indexOf? target = some next

private theorem goto_agrees {types : TypeState} {state : MachineState} {body : Body} {action : Action}
    {target : Int} (agrees : Agrees types state) (branch : action.target? = some target)
    (bound : ∃ j, body.indexOf? target = some j) :
    Proceeds (fun next => Agrees types next ∧ Goes body action state.next next.next)
      (state.goto body target) := by
  obtain ⟨j, found⟩ := bound
  unfold MachineState.goto
  rw [found]
  exact ⟨⟨agrees.stack, agrees.size, agrees.locals⟩, .inr ⟨target, branch, found⟩⟩

private theorem invoke_goes (body : Body) {pool : Pool} {offset : Nat} {types after : TypeState}
    {kind : InvokeKind} {index : UInt16} {ref : MemberRef} {state : MachineState}
    (rule : Rule pool offset types (.invoke kind index) after) (instanceCall : kind ≠ .staticCall)
    (known : pool.member index = .ok ref) (agrees : Agrees types state) :
    Proceeds (fun next => Agrees after next ∧ Goes body (.invoke kind index) state.next next.next)
      (state.invoke ref) :=
  (invoke_agrees rule instanceCall known agrees).mono fun _ done => ⟨done.1, .inl ⟨rfl, done.2⟩⟩

private theorem load_agrees {types : TypeState} {state : MachineState} {slot : Nat} {type : VType}
    (agrees : Agrees types state) (found : types.locals[slot]? = some type) :
    ∃ value, state.locals[slot]? = some value ∧ Agrees (types.push type) (state.push value) := by
  have bound : slot < state.locals.size := agrees.size ▸ (Array.getElem?_eq_some_iff.mp found).1
  have held := Array.getElem?_eq_getElem bound
  exact ⟨_, held, agrees.push (agrees.locals slot type _ found held)⟩

private theorem store_agrees {locals : Array VType} {stack : List VType} {type : VType}
    {state : MachineState} {slot : Nat} (agrees : Agrees ⟨locals, type :: stack⟩ state)
    (inside : slot < locals.size) :
    ∃ next, state.store slot = .ok next ∧
      Agrees ⟨locals.setIfInBounds slot type, stack⟩ next ∧ next.next = state.next := by
  obtain ⟨value, rest, -, -, top⟩ := List.forall₂_cons_left_iff.mp agrees.stack
  have bound : slot < state.locals.size := Nat.lt_of_lt_of_eq inside agrees.size
  refine ⟨_, ?_, agrees.store top slot, rfl⟩
  simp [MachineState.store, MachineState.pop, top, bound]

theorem execute_agrees {body : Body} {pool : Pool} {insn : Insn} {types after : TypeState}
    {state : MachineState} (rule : Rule pool insn.offset types insn.action after)
    (notRet : insn.action ≠ .ret) (agrees : Agrees types state)
    (bound : ∀ target, insn.action.target? = some target → ∃ j, body.indexOf? target = some j) :
    Proceeds (fun next => Agrees after next ∧ Goes body insn.action state.next next.next)
      (state.execute body pool insn) := by
  unfold MachineState.execute
  generalize insn.action = action at rule notRet bound
  have on : ∀ next : MachineState, Agrees after next → next.next = state.next →
      action.fallsThrough = true → Proceeds (fun next => Agrees after next ∧
        Goes body action state.next next.next) (.ok next) :=
    fun next typed same falls => ⟨typed, .inl ⟨falls, same⟩⟩
  have kept := rule
  cases rule with
  | nop => exact on _ agrees rfl rfl
  | goto => exact goto_agrees agrees rfl (bound _ rfl)
  | ret => exact (notRet rfl).elim
  | push => exact on _ (agrees.push fun _ => ⟨_, rfl⟩) rfl rfl
  | integer found =>
    simp only [found]
    exact on _ (agrees.push fun _ => ⟨_, rfl⟩) rfl rfl
  | string found =>
    simp only [found]
    exact message_ne rfl (by decide)
  | intLoad held =>
    obtain ⟨value, there, typed⟩ := load_agrees agrees held
    simp only [MachineState.load, there]
    exact on _ typed rfl rfl
  | refLoad held =>
    obtain ⟨value, there, typed⟩ := load_agrees agrees held
    simp only [MachineState.load, there]
    exact on _ typed rfl rfl
  | intStore inside =>
    obtain ⟨next, stored, typed, same⟩ := store_agrees agrees inside
    simp only [stored]
    exact on _ typed same rfl
  | refStore inside =>
    obtain ⟨next, stored, typed, same⟩ := store_agrees agrees inside
    simp only [stored]
    exact on _ typed same rfl
  | shuffle done =>
    obtain ⟨values, shuffled, typed⟩ := Shuffle.apply_forall₂ agrees.stack done
    simp only [shuffled]
    exact on _ (agrees.restack typed) rfl rfl
  | compute =>
    obtain ⟨right, _, -, below, top⟩ := List.forall₂_cons_left_iff.mp agrees.stack
    obtain ⟨left, rest, -, typed, rfl⟩ := List.forall₂_cons_left_iff.mp below
    simp only [MachineState.popInt, MachineState.pop, top, ok_bind, pure_eq_ok]
    split
    · exact on _ (agrees.restack (.cons (fun _ => ⟨_, rfl⟩) typed)) rfl rfl
    · exact nofun
  | negate =>
    obtain ⟨value, rest, -, typed, top⟩ := List.forall₂_cons_left_iff.mp agrees.stack
    simp only [MachineState.popInt, MachineState.pop, top, ok_bind, pure_eq_ok]
    exact on _ (agrees.restack (.cons (fun _ => ⟨_, rfl⟩) typed)) rfl rfl
  | branchZero =>
    obtain ⟨value, rest, -, typed, top⟩ := List.forall₂_cons_left_iff.mp agrees.stack
    simp only [MachineState.popInt, MachineState.pop, top, ok_bind, pure_eq_ok]
    refine Proceeds.ite (fun _ => ?_) fun _ => on _ (agrees.restack typed) rfl rfl
    exact goto_agrees (agrees.restack typed) rfl (bound _ rfl)
  | branchInts =>
    obtain ⟨right, _, -, below, top⟩ := List.forall₂_cons_left_iff.mp agrees.stack
    obtain ⟨left, rest, -, typed, rfl⟩ := List.forall₂_cons_left_iff.mp below
    simp only [MachineState.popInt, MachineState.pop, top, ok_bind, pure_eq_ok]
    refine Proceeds.ite (fun _ => ?_) fun _ => on _ (agrees.restack typed) rfl rfl
    exact goto_agrees (agrees.restack typed) rfl (bound _ rfl)
  | @getStatic _ index ref type found known =>
    simp only [found, Except.toOption, Option.getD_some]
    refine Proceeds.ite (fun isIn => ?_) fun _ => Proceeds.ite (fun isOut => ?_) fun _ => ?_
    · cases MemberRef.text_inj (by decide) (by decide) (by decide) isIn
      cases known
      exact on _ (agrees.push nofun) rfl rfl
    · cases MemberRef.text_inj (by decide) (by decide) (by decide) isOut
      cases known
      exact on _ (agrees.push nofun) rfl rfl
    · exact message_ne rfl (by decide)
  | staticCall => exact message_ne rfl (by decide)
  | @call _ _ _ _ kind _ ref _ _ found known fits instanceCall plain isRef =>
    have called := invoke_goes body kept instanceCall found agrees
    cases kind with
    | staticCall => exact (instanceCall rfl).elim
    | virtualCall => simpa only [found, Except.toOption, Option.getD_some] using called
    | specialCall => simpa only [found, Except.toOption, Option.getD_some] using called
  | construct found known fits isInit =>
    have called := invoke_goes body kept nofun found agrees
    simpa only [found, Except.toOption, Option.getD_some] using called
  | new found =>
    simp only [found, Except.toOption, Option.getD_some]
    refine Proceeds.ite (fun _ => ?_) fun _ => message_ne rfl (by decide)
    exact on _ (agrees.push nofun) rfl rfl

/-- The machine of a loaded class before its first instruction. -/
def Loaded.start (loaded : Loaded) (console : Console) : MachineState :=
  { locals := (Array.replicate (max loaded.code.maxLocals 1) (Value.int 0)).setIfInBounds 0 .other
    console }

/-- The states a loaded class can come to. Between any two steps the host may replace the console
by another one, so reads and writes have any outcome at all. -/
inductive Loaded.Reaches (loaded : Loaded) : MachineState → Prop where
  | start (console : Console) : loaded.Reaches (loaded.start console)
  | host {state : MachineState} (reached : loaded.Reaches state) (console : Console) :
      loaded.Reaches { state with console }
  | step {state next : MachineState} {insn : Insn} (reached : loaded.Reaches state)
      (present : loaded.analysis.body.insns[state.next]? = some insn)
      (stepped : ClassFile.step loaded.code loaded.analysis.body loaded.pool insn state = .next next) :
      loaded.Reaches next

/-- What `load` has established of a class. -/
theorem load_typed {bytes : Bytes} {loaded : Loaded} (accepted : load bytes = .ok loaded) :
    (∃ insns, decode loaded.code.bytes = .ok insns ∧ loaded.analysis.body = Body.ofInsns insns) ∧
    loaded.analysis.Typed loaded.pool (entryTypes [mainArgument] loaded.code.maxLocals) := by
  unfold load at accepted
  split at accepted
  · cases accepted
  · split at accepted
    · simp only [throw_eq_error, error_bind] at accepted
      split at accepted
      · cases accepted
      · split at accepted
        · cases accepted
        next analysis analyzed =>
          cases accepted
          obtain ⟨insns, decoded, -, body, typed⟩ := analyze_typed analyzed
          exact ⟨⟨insns, decoded, body⟩, typed⟩
    · cases accepted

private theorem start_agrees (loaded : Loaded) (console : Console) :
    Agrees (entryTypes [mainArgument] loaded.code.maxLocals) (loaded.start console) := by
  refine ⟨.nil, ?_, ?_⟩
  · simp only [entryTypes, Loaded.start, List.size_toArray, List.length_append, List.length_replicate,
      List.length_singleton, Array.size_setIfInBounds, Array.size_replicate]
    omega
  · intro slot type value found _ isInt
    subst isInt
    simp only [entryTypes, List.getElem?_toArray] at found
    cases slot with
    | zero => cases found
    | succ slot =>
      simp only [List.singleton_append, List.getElem?_cons_succ, List.getElem?_replicate] at found
      split at found <;> cases found

theorem Goes.successor {body : Body} {insn : Insn} {i j : Nat} {next : List Nat}
    (goes : Goes body insn.action (i + 1) j) (follow : body.successors i insn = .ok next) :
    j ∈ next := by
  simp only [Body.successors] at follow
  rcases goes with ⟨falls, rfl⟩ | ⟨target, branch, found⟩
  · simp only [falls, if_true] at follow
    split at follow <;> cases follow
    exact List.mem_append_right _ List.mem_cons_self
  · simp only [branch, Option.bind_some, found, Option.toList_some] at follow
    split at follow
    · split at follow <;> cases follow
      exact List.mem_append_left _ List.mem_cons_self
    · cases follow
      exact List.mem_cons_self

/-- The step lemma: types and machine go on together. -/
private theorem execute_typed {loaded : Loaded} {entry : TypeState}
    (typed : loaded.analysis.Typed loaded.pool entry) {state : MachineState} {insn : Insn}
    {types : TypeState} (present : loaded.analysis.body.insns[state.next]? = some insn)
    (found : loaded.analysis.states[state.next]? = some types) (agrees : Agrees types state)
    (notRet : insn.action ≠ .ret) :
    Proceeds (fun next => next.stack.length ≤ loaded.analysis.maxStack ∧
        ∃ known, loaded.analysis.states[next.next]? = some known ∧ Agrees known next)
      (MachineState.execute { state with next := state.next + 1 } loaded.analysis.body loaded.pool
        insn) := by
  obtain ⟨_, again, after, next, rule, follow, -, peak, received⟩ := typed.handled _ insn present
  rw [found] at again
  cases again
  have moved : Agrees types { state with next := state.next + 1 } :=
    ⟨agrees.stack, agrees.size, agrees.locals⟩
  have bound := fun target => typed.branches _ insn target present
  refine (execute_agrees rule notRet moved bound).mono fun result ⟨agreed, goes⟩ => ?_
  obtain ⟨known, there, covers⟩ := received _ (goes.successor follow)
  exact ⟨agreed.stack.length_eq ▸ peak, known, there, agreed.covered covers⟩

/-- The run lemma: in every state that is reached, the machine has the types of its next
instruction. -/
theorem Loaded.Reaches.agrees {loaded : Loaded} {entry : TypeState} {state : MachineState}
    (typed : loaded.analysis.Typed loaded.pool entry)
    (starts : ∀ console, Agrees entry (loaded.start console)) (reached : loaded.Reaches state) :
    ∃ types, loaded.analysis.states[state.next]? = some types ∧ Agrees types state := by
  induction reached with
  | start console =>
    obtain ⟨first, found, covers⟩ := typed.entry
    exact ⟨first, found, (starts console).covered covers⟩
  | host _ console ih =>
    obtain ⟨types, found, agrees⟩ := ih
    exact ⟨types, found, agrees.stack, agrees.size, agrees.locals⟩
  | @step state next insn reached present stepped ih =>
    obtain ⟨types, found, agrees⟩ := ih
    unfold ClassFile.step at stepped
    simp only at stepped
    split at stepped
    · cases stepped
    next notRet =>
      have proceeds := execute_typed typed present found agrees notRet
      split at stepped
      · cases stepped
      · cases stepped
      · cases stepped
      next result executed =>
        rw [executed] at proceeds
        split at stepped <;> cases stepped
        exact proceeds.2

private theorem lookup_at {list : List (Nat × Nat)} (distinct : (list.map Prod.fst).Nodup) {i : Nat}
    {key value : Nat} (present : list[i]? = some (key, value)) : list.lookup key = some value := by
  induction list generalizing i with
  | nil => cases present
  | cons first rest ih =>
    obtain ⟨fresh, others⟩ := List.nodup_cons.mp distinct
    cases i with
    | zero =>
      cases present
      simp
    | succ i =>
      have other : key ≠ first.1 := by
        intro same
        exact fresh (List.mem_map.mpr ⟨(key, value), List.mem_of_getElem? present, same⟩)
      rw [List.lookup_cons, beq_false_of_ne other]
      exact ih others present

private theorem depths_keys {analysis : Analysis}
    (size : analysis.states.size = analysis.body.insns.size) :
    analysis.depths.map Prod.fst = analysis.body.insns.toList.map Insn.offset := by
  have first : (analysis.body.insns.toList.zip analysis.states.toList).map Prod.fst =
      analysis.body.insns.toList := by
    refine List.map_fst_zip ?_
    rw [Array.length_toList, Array.length_toList, size]
  rw [Analysis.depths, List.map_map]
  conv => rhs; rw [← first, List.map_map]
  rfl

/-- The depth reported for an offset is that of the types of its instruction. -/
theorem Analysis.depths_lookup {analysis : Analysis}
    (size : analysis.states.size = analysis.body.insns.size)
    (distinct : (analysis.body.insns.toList.map Insn.offset).Nodup) {i : Nat} {insn : Insn}
    {types : TypeState} (present : analysis.body.insns[i]? = some insn)
    (found : analysis.states[i]? = some types) :
    analysis.depths.lookup insn.offset = some types.stack.length := by
  refine lookup_at (i := i) (depths_keys size ▸ distinct) ?_
  simp [Analysis.depths, List.getElem?_zip_eq_some, present, found]

/-- A state that has the types of its next instruction, which executes within the machine: it
needs no more stack than was announced and leads to another instruction. -/
structure Loaded.SafeAt (loaded : Loaded) (state : MachineState) (insn : Insn) (types : TypeState) :
    Prop where
  present : loaded.analysis.body.insns[state.next]? = some insn
  typed : loaded.analysis.states[state.next]? = some types
  depth : loaded.analysis.depths.lookup insn.offset = some state.stack.length
  peak : state.stack.length ≤ loaded.analysis.maxStack
  stackInts : ∀ k : Nat, types.stack[k]? = some .int → ∃ n, state.stack[k]? = some (.int n)
  localInts : ∀ slot : Nat, types.locals[slot]? = some .int → ∃ n, state.locals[slot]? = some (.int n)
  executes : insn.action ≠ .ret →
    Proceeds (fun next => next.next < loaded.analysis.body.insns.size ∧
        next.stack.length ≤ loaded.analysis.maxStack)
      (MachineState.execute { state with next := state.next + 1 } loaded.analysis.body loaded.pool
        insn)

private theorem Agrees.stack_int {types : TypeState} {state : MachineState} (agrees : Agrees types state)
    {k : Nat} (isInt : types.stack[k]? = some .int) : ∃ n, state.stack[k]? = some (.int n) := by
  obtain ⟨inside, same⟩ := List.getElem?_eq_some_iff.mp isInt
  have bound : k < state.stack.length := agrees.stack.length_eq ▸ inside
  obtain ⟨n, value⟩ := (List.forall₂_iff_get.mp agrees.stack).2 k inside bound same
  exact ⟨n, by rw [List.getElem?_eq_getElem bound]; exact congrArg some value⟩

private theorem Agrees.local_int {types : TypeState} {state : MachineState} (agrees : Agrees types state)
    {slot : Nat} (isInt : types.locals[slot]? = some .int) :
    ∃ n, state.locals[slot]? = some (.int n) := by
  have bound : slot < state.locals.size := agrees.size ▸ (Array.getElem?_eq_some_iff.mp isInt).1
  have held := Array.getElem?_eq_getElem bound
  obtain ⟨n, value⟩ := agrees.locals slot .int _ isInt held rfl
  exact ⟨n, by rw [held, value]⟩

private theorem reached_safe {bytes : Bytes} {loaded : Loaded} (accepted : load bytes = .ok loaded)
    {state : MachineState} (reached : loaded.Reaches state) :
    ∃ insn types, loaded.SafeAt state insn types := by
  obtain ⟨⟨insns, decoded, body⟩, typed⟩ := load_typed accepted
  obtain ⟨types, found, agrees⟩ := reached.agrees typed (start_agrees loaded)
  have inside : state.next < loaded.analysis.body.insns.size :=
    typed.size ▸ (Array.getElem?_eq_some_iff.mp found).1
  have present := Array.getElem?_eq_getElem inside
  have distinct : (loaded.analysis.body.insns.toList.map Insn.offset).Nodup := by
    rw [body]
    exact (decode_tiles decoded).offsets_nodup
  have length : types.stack.length = state.stack.length := agrees.stack.length_eq
  refine ⟨_, types, present, found, ?_, ?_, fun _ => agrees.stack_int, fun _ => agrees.local_int, ?_⟩
  · exact length ▸ Analysis.depths_lookup typed.size distinct present found
  · obtain ⟨_, again, _, _, _, _, shallow, _⟩ := typed.handled _ _ present
    rw [found] at again
    cases again
    exact length ▸ shallow
  · intro notRet
    refine (execute_typed typed present found agrees notRet).mono fun next ⟨peak, known, there, _⟩ => ?_
    exact ⟨typed.size ▸ (Array.getElem?_eq_some_iff.mp there).1, peak⟩

/-- An ending that is neither an access outside the machine nor a run past the last instruction. -/
def Proper (run : Run) : Prop :=
  run.ending ≠ .outOfBounds ∧
    ∀ fault, run.ending = .fault fault → fault.cause ≠ .badProgram Flaw.fellOff.message

private theorem step_proper {loaded : Loaded} {state : MachineState} {insn : Insn} {types : TypeState}
    {result : Run} (safe : loaded.SafeAt state insn types)
    (ended : ClassFile.step loaded.code loaded.analysis.body loaded.pool insn state = .ended result) :
    Proper result := by
  have executes := safe.executes
  unfold ClassFile.step at ended
  simp only at ended
  split at ended
  · cases ended
    exact ⟨nofun, nofun⟩
  next notRet =>
    have proceeds := executes notRet
    split at ended
    next flaw executed =>
      rw [executed] at proceeds
      cases ended
      refine ⟨nofun, ?_⟩
      rintro _ ⟨⟩ same
      exact proceeds (by injection same)
    next cause executed =>
      rw [executed] at proceeds
      cases ended
      refine ⟨nofun, ?_⟩
      rintro _ ⟨⟩ same
      exact proceeds _ same
    next executed =>
      rw [executed] at proceeds
      exact proceeds.elim
    next next executed =>
      rw [executed] at proceeds
      rw [if_pos proceeds.1] at ended
      cases ended

private theorem runFrom_proper {bytes : Bytes} {loaded : Loaded} (accepted : load bytes = .ok loaded)
    (limit fuel spent : Nat) {state : MachineState} (reached : loaded.Reaches state) {result : Run}
    (ran : runFrom loaded.code loaded.analysis.body loaded.pool limit fuel spent state = some result) :
    Proper result := by
  induction fuel generalizing spent state with
  | zero => cases ran
  | succ fuel ih =>
    obtain ⟨insn, types, safe⟩ := reached_safe accepted reached
    unfold runFrom at ran
    rw [safe.present] at ran
    simp only at ran
    split at ran
    · cases ran
      exact ⟨nofun, by rintro _ ⟨⟩; exact nofun⟩
    · split at ran
      next next stepped => exact ih (spent + 1) (reached.step safe.present stepped) ran
      next ended =>
        cases ran
        exact step_proper safe ended

/-- Code that the analysis accepts runs safely. Whatever the host answers, every state that is
reached has the types and the depth of its next instruction, and the instruction executes within
the machine; so no run of any length ends outside of it. -/
theorem accepted_code_runs_safely {bytes : Bytes} {loaded : Loaded}
    (accepted : load bytes = .ok loaded) :
    (∀ state, loaded.Reaches state → ∃ insn types, loaded.SafeAt state insn types) ∧
    ∀ limit fuel console result, run bytes limit fuel console = some result → Proper result := by
  refine ⟨fun state reached => reached_safe accepted reached, ?_⟩
  intro limit fuel console result ran
  unfold run at ran
  rw [accepted] at ran
  exact runFrom_proper accepted limit fuel 0 (.start console) ran

/-- A class whose main method doubles a number and keeps the result in a local. -/
def doublingClass : Bytes :=
  let text := fun (text : Bytes) => 1 :: u2 text.length ++ text
  let code : Bytes := [0x06, 0x59, 0x60, 0x3c, 0x10, 7, 0x1b, 0x5f, 0x58, 0xb1]
  let body := u2 2 ++ u2 2 ++ u4 code.length ++ code ++ u2 0 ++ u2 0
  [0xCA, 0xFE, 0xBA, 0xBE] ++ u2 0 ++ u2 52 ++ u2 6 ++ text "main" ++ text mainDescriptor ++
    text "Code" ++ text "Doubling" ++ 7 :: u2 4 ++ u2 0x21 ++ u2 5 ++ u2 5 ++ u2 0 ++ u2 0 ++
    u2 1 ++ u2 9 ++ u2 1 ++ u2 2 ++ u2 1 ++ u2 3 ++ u4 body.length ++ body ++ u2 0

theorem doubling_runs_safely :
    ∃ loaded, load doublingClass = .ok loaded ∧
      (∀ state, loaded.Reaches state → ∃ insn types, loaded.SafeAt state insn types) ∧
      ∀ limit fuel console result, run doublingClass limit fuel console = some result →
        Proper result := by
  have loads : (load doublingClass).toOption.isSome = true := by decide +kernel
  obtain ⟨loaded, accepted⟩ := exists_ok loads
  exact ⟨loaded, accepted, accepted_code_runs_safely accepted⟩

end Minilang.ClassFile
