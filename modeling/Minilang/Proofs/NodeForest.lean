import Minilang.Proofs.ArenaForest
import Minilang.Proofs.LosslessTokens

/-! The nodes of a parsed program form a forest in what the parser has allocated. Every parser puts
the nodes of what it returns behind the nodes that were there before, below a node that is younger
than its children, and in the order of their places. Dropped statements leave nodes behind that
nothing refers to. -/

namespace Minilang

namespace Node

/-- A node that stands for a variable. -/
def IsName : Node → Prop
  | expr (.varRef ..) => True
  | _ => False

/-- One node comes before another in the source. They may start together, a name apart. -/
def Before (a b : Node) : Prop := a.place ≤ b.place ∧ (a.IsName → a.place < b.place)

theorem IsName.children {node : Node} (name : node.IsName) : node.children = [] := by
  unfold IsName at name
  split at name
  · rfl
  · exact name.elim

end Node

namespace ParseState

/-- Where the next token starts. -/
def place (state : ParseState) : Nat := state.head.span.start.toNat

/-- Tokens up to the end of a file, which may be known to start one behind the other. -/
structure Ready (sorted : Prop) (state : ParseState) : Prop where
  ends : state.tokens.getLast?.map Token.kind = some .eof
  ascending : sorted → state.tokens.Pairwise fun a b => a.span.start.toNat < b.span.start.toNat

/-- One state comes behind another: what was allocated stays where it is. -/
structure Onward (sorted : Prop) (before after : ParseState) : Prop where
  ready : after.Ready sorted
  kept : before.arenas.Kept after.arenas
  place : sorted → before.place ≤ after.place

/-- Nodes that were allocated between two states, children before their parents, for the tokens
between them. -/
structure Laid (sorted : Prop) (before after : ParseState) (nodes : List Node) : Prop where
  onward : before.Onward sorted after
  stored : ∀ node ∈ nodes, node.Stored after.arenas
  fresh : ∀ node ∈ nodes, node.among before.arenas < node.site.id
  once : nodes.Pairwise fun a b => ¬a.Same b
  descends : ∀ node ∈ nodes, ∀ child ∈ node.children, child.isStmt = node.isStmt →
    child.site.id < node.site.id
  within : sorted → ∀ node ∈ nodes, before.place ≤ node.place ∧ node.place < after.place
  ordered : sorted → nodes.Pairwise Node.Before

variable {sorted : Prop} {state before between after : ParseState} {nodes more : List Node}

theorem Onward.refl (ready : state.Ready sorted) : state.Onward sorted state :=
  ⟨ready, .refl _, fun _ => Nat.le_refl _⟩

theorem Onward.trans (first : before.Onward sorted between) (second : between.Onward sorted after) :
    before.Onward sorted after where
  ready := second.ready
  kept := first.kept.trans second.kept
  place yes := Nat.le_trans (first.place yes) (second.place yes)

theorem Laid.nil (onward : before.Onward sorted after) : before.Laid sorted after [] where
  onward := onward
  stored := by simp
  fresh := by simp
  once := .nil
  descends := by simp
  within := by simp
  ordered _ := .nil

/-- What is laid later is numbered higher and placed behind. -/
theorem Laid.append (first : before.Laid sorted between nodes)
    (second : between.Laid sorted after more) : before.Laid sorted after (nodes ++ more) where
  onward := first.onward.trans second.onward
  stored := by
    rw [List.forall_mem_append]
    exact ⟨fun node member => (first.stored node member).kept second.onward.kept, second.stored⟩
  fresh := by
    rw [List.forall_mem_append]
    refine ⟨first.fresh, fun node member => ?_⟩
    exact Nat.lt_of_le_of_lt (node.among_kept first.onward.kept) (second.fresh node member)
  once := by
    refine List.pairwise_append.mpr ⟨first.once, second.once, fun a here b there same => ?_⟩
    have below := (first.stored a here).le.2
    have above := second.fresh b there
    have sort : a.among between.arenas = b.among between.arenas := by
      cases a <;> cases b <;> simp_all [Node.Same, Node.isStmt, Node.among]
    have number := same.2
    omega
  descends := by
    rw [List.forall_mem_append]
    exact ⟨first.descends, second.descends⟩
  within yes := by
    have ahead := second.onward.place yes
    have behind := first.onward.place yes
    rw [List.forall_mem_append]
    refine ⟨fun node member => ?_, fun node member => ?_⟩
    · have := first.within yes node member
      omega
    · have := second.within yes node member
      omega
  ordered yes := by
    refine List.pairwise_append.mpr ⟨first.ordered yes, second.ordered yes, fun a here b there => ?_⟩
    have earlier := first.within yes a here
    have later := second.within yes b there
    exact ⟨by omega, fun _ => by omega⟩

end ParseState

/-- A span that starts no later than another still does so when it covers both. -/
theorem Span.start_cover {span other : Span} (first : span.start.toNat ≤ other.start.toNat) :
    (span.cover other).start = span.start := by
  unfold Span.cover
  split
  · have : ¬other.start < span.start := by
      rw [UInt32.lt_iff_toNat_lt]
      omega
    simp only [this, if_false]
  · rfl

namespace ParseState

variable {sorted : Prop} {state before between after : ParseState} {nodes : List Node}

/-- Only tokens and allocated nodes matter. -/
theorem Onward.same (ready : state.Ready sorted) (tokens : after.tokens = state.tokens)
    (arenas : after.arenas = state.arenas) : state.Onward sorted after := by
  have place : after.place = state.place := by
    simp only [ParseState.place, ParseState.head, tokens]
  exact ⟨⟨tokens ▸ ready.ends, tokens ▸ ready.ascending⟩, arenas ▸ .refl _,
    fun _ => Nat.le_of_eq place.symm⟩

theorem onward_countError (ready : state.Ready sorted) : state.Onward sorted state.countError :=
  .same ready rfl rfl

theorem place_report (state : ParseState) (code : Code) (span : Span) (message : Bytes) :
    (state.report code span message).place = state.place := by
  unfold ParseState.report
  split <;> rfl

theorem onward_report (ready : state.Ready sorted) (code : Code) (span : Span) (message : Bytes) :
    state.Onward sorted (state.report code span message) := by
  unfold ParseState.report
  split <;> exact .same ready rfl rfl

/-- Taking a token moves the place unless the end is reached. -/
theorem onward_advance (ready : state.Ready sorted) : state.Onward sorted state.advance ∧
    (sorted → state.head.kind ≠ .eof → state.place < state.advance.place) := by
  obtain ⟨ends, ascending⟩ := ready
  unfold ParseState.advance
  split
  next token next rest tokens =>
    rw [tokens] at ends ascending
    have later : sorted → token.span.start.toNat < next.span.start.toNat := fun yes =>
      List.rel_of_pairwise_cons (ascending yes) List.mem_cons_self
    have here : state.head = token := by rw [ParseState.head, tokens]; rfl
    refine ⟨⟨⟨?_, fun yes => (ascending yes).of_cons⟩, .refl _, fun yes => ?_⟩, fun yes _ => ?_⟩
    · rwa [List.getLast?_cons_cons] at ends
    · rw [ParseState.place, here]
      exact Nat.le_of_lt (later yes)
    · rw [ParseState.place, here]
      exact later yes
  next token tokens =>
    refine ⟨.same ⟨ends, ascending⟩ rfl rfl, fun _ more => absurd ?_ more⟩
    rw [tokens] at ends
    rw [ParseState.head, tokens]
    exact Option.some.inj ends
  next tokens =>
    rw [tokens] at ends
    cases ends

/-- The node that a walk comes to first is the one allocated last. -/
theorem Laid.node (laid : before.Laid sorted between nodes) {node : Node}
    (onward : between.Onward sorted after) (stored : node.Stored after.arenas)
    (number : node.site.id = node.among between.arenas + 1)
    (below : node.children.flatMap Node.walk = nodes)
    (start : sorted → node.place = before.place) (moved : sorted → before.place < between.place) :
    before.Laid sorted after (node :: nodes) := by
  have older : ∀ other ∈ nodes, other.isStmt = node.isStmt → other.site.id < node.site.id := by
    intro other member sort
    have bound := (laid.stored other member).le.2
    have counted : other.among between.arenas = node.among between.arenas := by
      cases other <;> cases node <;> first | rfl | cases sort
    omega
  refine
    { onward := laid.onward.trans onward
      stored := List.forall_mem_cons.mpr
        ⟨stored, fun other member => (laid.stored other member).kept onward.kept⟩
      fresh := List.forall_mem_cons.mpr ⟨?_, laid.fresh⟩
      once := .cons (fun other member same => ?_) laid.once
      descends := List.forall_mem_cons.mpr ⟨fun child member sort => ?_, laid.descends⟩
      within := fun yes => List.forall_mem_cons.mpr ⟨?_, fun other member => ?_⟩
      ordered := fun yes => .cons (fun other member => ?_) (laid.ordered yes) }
  · have := node.among_kept laid.onward.kept
    omega
  · exact absurd same.2.symm (Nat.ne_of_lt (older other member same.1.symm))
  · cases absent : child.isAbsent with
    | true =>
      have none_ : child.site.id = 0 := by
        unfold Node.isAbsent at absent
        split at absent
        · rfl
        · rfl
        · cases absent
      omega
    | false =>
      refine older child ?_ sort
      rw [← below]
      exact List.mem_flatMap.mpr ⟨child, member, Node.mem_walk_self absent⟩
  · have := moved yes
    have := onward.place yes
    have := start yes
    omega
  · have := laid.within yes other member
    have := onward.place yes
    omega
  · have inside := laid.within yes other member
    refine ⟨by rw [start yes]; exact inside.1, fun name => ?_⟩
    rw [← below, name.children] at member
    cases member

/-- A tree that was read between two states, from the first token on. -/
structure Planted (sorted : Prop) (before after : ParseState) (node : Node) : Prop where
  present : node.isAbsent = false
  laid : before.Laid sorted after node.walk
  start : sorted → node.place = before.place

theorem Planted.moved {node : Node} (planted : before.Planted sorted after node) (yes : sorted) :
    before.place < after.place := by
  have inside := planted.laid.within yes node (Node.mem_walk_self planted.present)
  exact Nat.lt_of_le_of_lt inside.1 inside.2

end ParseState

/-- A kind of node with its children, to be allocated. -/
structure Node.Makes (node : Site → Node) (kids : List Node) : Prop where
  site : ∀ site, (node site).site = site
  present : ∀ site, (node site).isAbsent = false
  children : ∀ site, (node site).children = kids

namespace Parser

open ParseState

variable {sorted : Prop} {α β : Type} {state : ParseState}

/-- A step that only goes on and gives a result as said. -/
def Leads (sorted : Prop) (step : StateM ParseState α) (state : ParseState)
    (good : α → ParseState → Prop) : Prop :=
  state.Onward sorted (step.run state).2 ∧ good (step.run state).1 (step.run state).2

/-- A parser that only goes on; what it gives, if anything, is as said. -/
def Gives (sorted : Prop) (p : Parser α) (state : ParseState) (good : α → ParseState → Prop) :
    Prop :=
  Leads sorted p.run state fun result after => ∀ value, result = some value → good value after

variable {good : α → ParseState → Prop} {better : β → ParseState → Prop}

theorem Leads.bind {step : StateM ParseState α} {next : α → StateM ParseState β}
    (first : Leads sorted step state good)
    (rest : ∀ value after, state.Onward sorted after → good value after →
      Leads sorted (next value) after better) : Leads sorted (step >>= next) state better := by
  obtain ⟨onward, holds⟩ := first
  obtain ⟨later, result⟩ := rest _ _ onward holds
  exact ⟨onward.trans later, result⟩

theorem Leads.get {next : ParseState → StateM ParseState β}
    (rest : Leads sorted (next state) state better) : Leads sorted (get >>= next) state better :=
  rest

theorem Gives.bind {p : Parser α} {next : α → Parser β} (first : Gives sorted p state good)
    (rest : ∀ value after, state.Onward sorted after → good value after →
      Gives sorted (next value) after better) : Gives sorted (p >>= next) state better := by
  obtain ⟨onward, holds⟩ := first
  unfold Gives Leads
  rw [run_bind]
  split
  next value after ran =>
    rw [ran] at onward holds
    obtain ⟨later, result⟩ := rest value after onward (holds value rfl)
    exact ⟨onward.trans later, result⟩
  next after ran =>
    rw [ran] at onward
    refine ⟨onward, ?_⟩
    rintro value ⟨⟩

theorem gives_pure (ready : state.Ready sorted) {value : α} (holds : good value state) :
    Gives sorted (pure value) state good := by
  refine ⟨.refl ready, ?_⟩
  rintro _ ⟨⟩
  exact holds

theorem gives_lift {step : StateM ParseState α} (leads : Leads sorted step state good) :
    Gives sorted (step : Parser α) state good := by
  refine ⟨leads.1, ?_⟩
  rintro _ ⟨⟩
  exact leads.2

theorem gives_ite {condition : Prop} [Decidable condition] {yes no : Parser α}
    (whenYes : condition → Gives sorted yes state good)
    (whenNo : ¬condition → Gives sorted no state good) :
    Gives sorted (if condition then yes else no) state good := by
  split
  next holds => exact whenYes holds
  next fails => exact whenNo fails

theorem Gives.peek {next : Token → Parser β} (rest : Gives sorted (next state.head) state better) :
    Gives sorted (peek >>= next) state better := rest

theorem Gives.atKind {kind : TokenKind} {next : Bool → Parser β}
    (rest : Gives sorted (next (state.at? kind)) state better) :
    Gives sorted (atKind kind >>= next) state better := rest

/-- Taking a token that is not the end moves on. -/
theorem Gives.advance (ready : state.Ready sorted) {next : Token → Parser β}
    (rest : state.Onward sorted state.advance →
      (sorted → state.head.kind ≠ .eof → state.place < state.advance.place) →
      Gives sorted (next state.head) state.advance better) :
    Gives sorted (advance >>= next) state better := by
  obtain ⟨onward, moved⟩ := onward_advance ready
  obtain ⟨later, result⟩ := rest onward moved
  exact ⟨onward.trans later, result⟩

theorem gives_fail (ready : state.Ready sorted) (code : Code) (message : Bytes) :
    Gives sorted (fail code message) state good := by
  refine ⟨onward_report ready code _ message, ?_⟩
  rintro _ ⟨⟩

theorem gives_countError (ready : state.Ready sorted) :
    Gives sorted (do modify ParseState.countError; failure) state good := by
  refine ⟨onward_countError ready, ?_⟩
  rintro _ ⟨⟩

theorem gives_starve (ready : state.Ready sorted) : Gives sorted starve state good := by
  refine ⟨.same ready rfl rfl, ?_⟩
  rintro _ ⟨⟩

theorem gives_checkLiteral (ready : state.Ready sorted) (token : Token) :
    Gives sorted (checkLiteral token) state fun _ after => after.place = state.place := by
  unfold checkLiteral
  split
  · exact gives_pure ready rfl
  · refine ⟨onward_report ready _ _ _, ?_⟩
    rintro _ ⟨⟩
    exact place_report state _ _ _

theorem gives_expect (ready : state.Ready sorted) (kind : TokenKind) (code : Code)
    (message : Bytes) : Gives sorted (expect kind code message) state fun token after =>
      token = state.head ∧ (sorted → kind ≠ .eof → state.place < after.place) := by
  refine Gives.atKind (gives_ite (fun here => ?_) fun _ => ?_)
  · obtain ⟨onward, moved⟩ := onward_advance ready
    refine ⟨onward, ?_⟩
    rintro _ ⟨⟩
    have kinds : state.head.kind = kind := by simpa [ParseState.at?] using here
    exact ⟨rfl, fun yes other => moved yes (kinds ▸ other)⟩
  · refine Gives.atKind (gives_ite (fun _ => ?_) fun _ => ?_)
    · exact gives_countError ready
    · exact gives_fail ready code message

variable {origin : ParseState} {kids : List Node} {span : Span}

/-- A new node goes on top of its children. -/
theorem gives_newExpr {node : Site → Expr} (makes : Node.Makes (fun site => .expr (node site)) kids)
    (laid : origin.Laid sorted state (kids.flatMap Node.walk))
    (start : sorted → span.start.toNat = origin.place) (moved : sorted → origin.place < state.place) :
    Gives sorted (newExpr node span) state fun e after => origin.Planted sorted after (.expr e) := by
  have numbered : (node ⟨state.arenas.exprs.size + 1, span⟩).site =
      ⟨state.arenas.exprs.size + 1, span⟩ := makes.site _
  have onward : state.Onward sorted ((newExpr node span).run state).2 :=
    ⟨⟨laid.onward.ready.ends, laid.onward.ready.ascending⟩, ⟨Exprs.kept_add _ _, .refl _⟩,
      fun _ => Nat.le_refl _⟩
  refine ⟨onward, ?_⟩
  rintro _ ⟨⟩
  have place : sorted →
      (Node.expr (node ⟨state.arenas.exprs.size + 1, span⟩)).place = origin.place := by
    intro yes
    rw [Node.place, Node.site, numbered]
    exact start yes
  refine ⟨makes.present _, ?_, place⟩
  rw [Node.walk_eq (makes.present _), makes.children]
  refine laid.node onward ?_ (congrArg Site.id numbered) ?_ place moved
  · exact Exprs.stores_add (makes.present _) (congrArg Site.id numbered)
  · rw [makes.children]

theorem gives_newStmt {node : Site → Stmt} (makes : Node.Makes (fun site => .stmt (node site)) kids)
    (laid : origin.Laid sorted state (kids.flatMap Node.walk))
    (start : sorted → span.start.toNat = origin.place) (moved : sorted → origin.place < state.place) :
    Gives sorted (newStmt node span) state fun s after => origin.Planted sorted after (.stmt s) := by
  have numbered : (node ⟨state.arenas.stmts.size + 1, span⟩).site =
      ⟨state.arenas.stmts.size + 1, span⟩ := makes.site _
  have onward : state.Onward sorted ((newStmt node span).run state).2 :=
    ⟨⟨laid.onward.ready.ends, laid.onward.ready.ascending⟩, ⟨.refl _, Stmts.kept_add _ _⟩,
      fun _ => Nat.le_refl _⟩
  refine ⟨onward, ?_⟩
  rintro _ ⟨⟩
  have place : sorted →
      (Node.stmt (node ⟨state.arenas.stmts.size + 1, span⟩)).place = origin.place := by
    intro yes
    rw [Node.place, Node.site, numbered]
    exact start yes
  refine ⟨makes.present _, ?_, place⟩
  rw [Node.walk_eq (makes.present _), makes.children]
  refine laid.node onward ?_ (congrArg Site.id numbered) ?_ place moved
  · exact Stmts.stores_add (makes.present _) (congrArg Site.id numbered)
  · rw [makes.children]

/-- A span from the next token to a later one starts at the next token. -/
theorem start_head_cover (later : sorted → state.place ≤ span.start.toNat) (yes : sorted) :
    (state.head.span.cover span).start.toNat = state.place := by
  rw [Span.start_cover (later yes)]
  rfl

/-- What each of the expression parsers lays with some fuel. -/
private structure ExprsPlanted (sorted : Prop) (fuel : Nat) : Prop where
  binary : ∀ minimum (state : ParseState), state.Ready sorted →
    Gives sorted (binary fuel minimum) state fun e after => state.Planted sorted after (.expr e)
  operands : ∀ minimum left (origin state : ParseState), origin.Planted sorted state (.expr left) →
    Gives sorted (operands fuel minimum left) state fun e after =>
      origin.Planted sorted after (.expr e)
  unary : ∀ state : ParseState, state.Ready sorted →
    Gives sorted (unary fuel) state fun e after => state.Planted sorted after (.expr e)
  primary : ∀ state : ParseState, state.Ready sorted →
    Gives sorted (primary fuel) state fun e after => state.Planted sorted after (.expr e)

private theorem operands_planted {fuel : Nat} (less : ExprsPlanted sorted fuel) (minimum : Nat)
    {left : Expr} (planted : origin.Planted sorted state (.expr left)) :
    Gives sorted (operands (fuel + 1) minimum left) state fun e after =>
      origin.Planted sorted after (.expr e) := by
  have ready := planted.laid.onward.ready
  rw [operands]
  refine Gives.peek ?_
  split
  next => exact gives_pure ready planted
  next rule found =>
    refine gives_ite (fun _ => gives_pure ready planted) fun _ => Gives.advance ready ?_
    intro onward _
    refine (less.binary _ _ onward.ready).bind fun right after later grown => ?_
    have laid := (planted.laid.append (.nil onward)).append grown.laid
    have far : sorted → left.span.start.toNat ≤ right.span.start.toNat := by
      intro yes
      have := planted.start yes
      have := grown.start yes
      have := planted.moved yes
      have := onward.place yes
      simp only [Node.place, Node.site] at *
      simp only [Expr.span]
      omega
    have makes : Node.Makes (fun site => .expr (.binary site rule.form rule.op left right))
        [.expr left, .expr right] := ⟨fun _ => rfl, fun _ => rfl, fun _ => rfl⟩
    refine (gives_newExpr makes ?_ (fun yes => ?_) fun yes => ?_).bind
      fun node last _ whole => less.operands minimum node origin last whole
    · simpa using laid
    · rw [Span.start_cover (far yes)]
      exact planted.start yes
    · have := planted.moved yes
      have := onward.place yes
      have := later.place yes
      omega

private theorem unary_planted {fuel : Nat} (less : ExprsPlanted sorted fuel)
    (ready : state.Ready sorted) :
    Gives sorted (unary (fuel + 1)) state fun e after => state.Planted sorted after (.expr e) := by
  rw [unary]
  refine Gives.peek ?_
  split
  next => exact less.primary state ready
  next op found =>
    refine Gives.advance ready ?_
    intro onward _
    refine (less.unary _ onward.ready).bind fun operand after later grown => ?_
    have laid := (Laid.nil onward).append grown.laid
    refine gives_newExpr ⟨fun _ => rfl, fun _ => rfl, fun _ => rfl⟩ ?_ (start_head_cover ?_) fun yes => ?_
    · simpa using laid
    · intro yes
      have := grown.start yes
      have := onward.place yes
      simp only [Node.place, Node.site] at *
      simp only [Expr.span]
      omega
    · have := grown.moved yes
      have := onward.place yes
      omega

private theorem primary_planted {fuel : Nat} (less : ExprsPlanted sorted fuel)
    (ready : state.Ready sorted) :
    Gives sorted (primary (fuel + 1)) state fun e after => state.Planted sorted after (.expr e) := by
  rw [primary]
  refine Gives.peek ?_
  split
  next literal =>
    refine Gives.advance ready fun onward moved => ?_
    refine (gives_checkLiteral onward.ready state.head).bind fun _ after checked same => ?_
    refine gives_newExpr ⟨fun _ => rfl, fun _ => rfl, fun _ => rfl⟩ (.nil (onward.trans checked))
      (fun _ => rfl) fun yes => ?_
    rw [same]
    exact moved yes (by rw [literal]; decide)
  next ident =>
    refine Gives.advance ready fun onward moved => ?_
    refine gives_newExpr ⟨fun _ => rfl, fun _ => rfl, fun _ => rfl⟩ (.nil onward) (fun _ => rfl) fun yes => ?_
    exact moved yes (by rw [ident]; decide)
  next keyword =>
    refine Gives.advance ready fun onward moved => ?_
    refine gives_newExpr ⟨fun _ => rfl, fun _ => rfl, fun _ => rfl⟩ (.nil onward) (fun _ => rfl) fun yes => ?_
    exact moved yes (by rw [keyword]; decide)
  next opened =>
    refine Gives.advance ready fun onward moved => ?_
    refine (less.binary 1 _ onward.ready).bind fun inner after later grown => ?_
    refine (gives_expect later.ready _ _ _).bind fun closing last ending token => ?_
    have laid := ((Laid.nil onward).append grown.laid).append (.nil ending)
    refine gives_newExpr ⟨fun _ => rfl, fun _ => rfl, fun _ => rfl⟩ ?_ (start_head_cover ?_) fun yes => ?_
    · simpa using laid
    · intro yes
      rw [token.1]
      exact Nat.le_trans (onward.place yes) (later.place yes)
    · have := grown.moved yes
      have := onward.place yes
      have := ending.place yes
      omega
  next => exact Gives.advance ready fun onward _ => gives_countError onward.ready
  next => exact gives_fail ready _ _

private theorem exprs_planted (sorted : Prop) (fuel : Nat) : ExprsPlanted sorted fuel := by
  induction fuel with
  | zero =>
    refine ⟨fun _ state ready => ?_, fun _ left origin state planted => ?_, fun state ready => ?_,
      fun state ready => ?_⟩
    · rw [binary]; exact gives_starve ready
    · rw [operands]; exact gives_starve planted.laid.onward.ready
    · rw [unary]; exact gives_starve ready
    · rw [primary]; exact gives_starve ready
  | succ fuel less =>
    refine ⟨fun minimum state ready => ?_, fun minimum _ _ _ => operands_planted less minimum,
      fun _ => unary_planted less, fun _ => primary_planted less⟩
    rw [binary]
    exact (less.unary state ready).bind fun left after _ planted =>
      less.operands minimum left state after planted

theorem gives_expression (fuel : Nat) (ready : state.Ready sorted) :
    Gives sorted (expression fuel) state fun e after => state.Planted sorted after (.expr e) :=
  (exprs_planted sorted fuel).binary 1 state ready

theorem gives_semicolon (ready : state.Ready sorted) :
    Gives sorted semicolon state fun token after =>
      token = state.head ∧ (sorted → TokenKind.semicolon ≠ .eof → state.place < after.place) :=
  Gives.peek (gives_expect ready _ _ _)

private theorem assign_planted (fuel : Nat) (ready : state.Ready sorted)
    (ident : state.head.kind = .ident) :
    Gives sorted (assign fuel) state fun s after => state.Planted sorted after (.stmt s) := by
  refine Gives.advance ready fun onward moved => ?_
  refine (gives_expect onward.ready _ _ _).bind fun _ first passed _ => ?_
  refine (gives_expression fuel passed.ready).bind fun value second read grown => ?_
  refine (gives_semicolon read.ready).bind fun last third ending token => ?_
  have laid := (((Laid.nil onward).append (.nil passed)).append grown.laid).append (.nil ending)
  refine gives_newStmt ⟨fun _ => rfl, fun _ => rfl, fun _ => rfl⟩ ?_ (start_head_cover fun yes => ?_)
    fun yes => ?_
  · simpa using laid
  · rw [token.1]
    exact ((onward.trans passed).trans read).place yes
  · have := moved yes (by rw [ident]; decide)
    have := ((passed.trans read).trans ending).place yes
    omega

private theorem read_planted (ready : state.Ready sorted) (keyword : state.head.kind = .kwRead) :
    Gives sorted read state fun s after => state.Planted sorted after (.stmt s) := by
  refine Gives.advance ready fun onward moved => ?_
  refine (gives_expect onward.ready _ _ _).bind fun name first passed _ => ?_
  refine (gives_semicolon passed.ready).bind fun last second ending token => ?_
  refine gives_newStmt ⟨fun _ => rfl, fun _ => rfl, fun _ => rfl⟩
    (.nil ((onward.trans passed).trans ending)) (start_head_cover fun yes => ?_) fun yes => ?_
  · rw [token.1]
    exact (onward.trans passed).place yes
  · have := moved yes (by rw [keyword]; decide)
    have := (passed.trans ending).place yes
    omega

private theorem print_planted (fuel : Nat) (ready : state.Ready sorted)
    (keyword : state.head.kind = .kwPrint) :
    Gives sorted (print fuel) state fun s after => state.Planted sorted after (.stmt s) := by
  refine Gives.advance ready fun onward moved => ?_
  refine (gives_expression fuel onward.ready).bind fun value first read grown => ?_
  refine (gives_semicolon read.ready).bind fun last second ending token => ?_
  have laid := ((Laid.nil onward).append grown.laid).append (.nil ending)
  refine gives_newStmt ⟨fun _ => rfl, fun _ => rfl, fun _ => rfl⟩ ?_ (start_head_cover fun yes => ?_)
    fun yes => ?_
  · simpa using laid
  · rw [token.1]
    exact (onward.trans read).place yes
  · have := moved yes (by rw [keyword]; decide)
    have := (read.trans ending).place yes
    omega

theorem onward_resync (fuel : Nat) (ready : state.Ready sorted) :
    state.Onward sorted (resync fuel state) := by
  induction fuel generalizing state with
  | zero => exact .same ready rfl rfl
  | succ fuel ih =>
    have step := (onward_advance ready).1
    rw [resync]
    split
    any_goals exact .refl ready
    · exact step
    · exact step.trans (ih step.ready)

/-- A block between two states, with a span that starts at its brace. -/
structure Body (sorted : Prop) (state : ParseState) (result : List Stmt × Span)
    (after : ParseState) : Prop where
  laid : state.Laid sorted after (Stmt.trees result.1)
  start : sorted → result.2.start.toNat = state.place
  moved : sorted → state.place < after.place

/-- What each of the statement parsers lays with some fuel. -/
private structure StmtsPlanted (sorted : Prop) (fuel : Nat) : Prop where
  statements : ∀ terminator done (state : ParseState), state.Ready sorted →
    Leads sorted (statements fuel terminator done) state fun body after =>
      ∃ more, body = done.reverse ++ more ∧ state.Laid sorted after (Stmt.trees more)
  statement : ∀ state : ParseState, state.Ready sorted →
    Gives sorted (statement fuel) state fun s after => state.Planted sorted after (.stmt s)
  block : ∀ owner (state : ParseState), state.Ready sorted →
    Gives sorted (block fuel owner) state (Body sorted state)
  conditional : ∀ state : ParseState, state.Ready sorted →
    Gives sorted (conditional fuel) state fun s after => state.Planted sorted after (.stmt s)
  whileLoop : ∀ state : ParseState, state.Ready sorted →
    Gives sorted (whileLoop fuel) state fun s after => state.Planted sorted after (.stmt s)
  forLoop : ∀ state : ParseState, state.Ready sorted →
    Gives sorted (forLoop fuel) state fun s after => state.Planted sorted after (.stmt s)

private theorem statements_planted {fuel : Nat} (less : StmtsPlanted sorted fuel)
    (terminator : TokenKind) (done : List Stmt) (ready : state.Ready sorted) :
    Leads sorted (statements (fuel + 1) terminator done) state fun body after =>
      ∃ more, body = done.reverse ++ more ∧ state.Laid sorted after (Stmt.trees more) := by
  -- Whatever is skipped lays nothing, so the rest of the row is all there is.
  have skip : ∀ {step : StateM ParseState PUnit}, state.Onward sorted (step.run state).2 →
      Leads sorted (step >>= fun _ => statements fuel terminator done) state fun body after =>
        ∃ more, body = done.reverse ++ more ∧ state.Laid sorted after (Stmt.trees more) := by
    intro step onward
    obtain ⟨later, more, made, laid⟩ := less.statements terminator done _ onward.ready
    exact ⟨onward.trans later, more, made, (Laid.nil onward).append laid⟩
  rw [statements]
  refine Leads.get ?_
  split
  · exact ⟨.refl ready, [], (List.append_nil _).symm, .nil (.refl ready)⟩
  split
  · exact skip (onward_advance ready).1
  split
  · have reported := onward_report ready .unexpectedToken state.errorSpan "unexpected '\x7d'"
    exact skip (reported.trans (onward_advance reported.ready).1)
  · refine Leads.bind (less.statement state ready) fun result after onward planted => ?_
    split
    next s =>
      obtain ⟨later, more, made, laid⟩ := less.statements terminator (s :: done) after onward.ready
      refine ⟨later, s :: more, by simpa using made, ?_⟩
      exact (planted s rfl).laid.append laid
    next =>
      have resumed := onward_resync after.tokens.length onward.ready
      obtain ⟨later, more, made, laid⟩ := less.statements terminator done _ resumed.ready
      exact ⟨resumed.trans later, more, made, (Laid.nil (onward.trans resumed)).append laid⟩

private theorem block_planted {fuel : Nat} (less : StmtsPlanted sorted fuel) (owner : Bytes)
    (ready : state.Ready sorted) :
    Gives sorted (block (fuel + 1) owner) state (Body sorted state) := by
  rw [block]
  refine (gives_expect ready _ _ _).bind fun opening first passed opened => ?_
  refine (gives_lift (less.statements .rBrace [] first passed.ready)).bind fun body second read row => ?_
  obtain ⟨more, rfl, laid⟩ := row
  refine (gives_expect read.ready _ _ _).bind fun closing third ending closed => ?_
  have whole := ((Laid.nil passed).append laid).append (.nil ending)
  refine gives_pure ending.ready ⟨by simpa using whole, fun yes => ?_, fun yes => ?_⟩
  · rw [opened.1]
    refine start_head_cover (fun yes => ?_) yes
    rw [closed.1]
    exact (passed.trans read).place yes
  · have := opened.2 yes (by decide)
    have := (read.trans ending).place yes
    omega

private theorem whileLoop_planted {fuel : Nat} (less : StmtsPlanted sorted fuel)
    (ready : state.Ready sorted) :
    Gives sorted (whileLoop (fuel + 1)) state fun s after =>
      state.Planted sorted after (.stmt s) := by
  rw [whileLoop]
  refine Gives.advance ready fun onward moved => ?_
  refine (gives_expression fuel onward.ready).bind fun cond first read grown => ?_
  refine (less.block _ first read.ready).bind fun inner second _ body => ?_
  have laid := ((Laid.nil onward).append grown.laid).append body.laid
  refine gives_newStmt ⟨fun _ => rfl, fun _ => rfl, fun _ => rfl⟩ ?_ (start_head_cover fun yes => ?_)
    fun yes => ?_
  · simpa [Stmt.trees] using laid
  · rw [body.start yes]
    exact (onward.trans read).place yes
  · have := (onward.trans read).place yes
    have := body.moved yes
    omega

private theorem conditional_planted {fuel : Nat} (less : StmtsPlanted sorted fuel)
    (ready : state.Ready sorted) :
    Gives sorted (conditional (fuel + 1)) state fun s after =>
      state.Planted sorted after (.stmt s) := by
  rw [conditional]
  refine Gives.advance ready fun onward moved => ?_
  refine (gives_expression fuel onward.ready).bind fun cond first read grown => ?_
  refine (less.block _ first read.ready).bind fun yes second inside body => ?_
  have head := ((Laid.nil onward).append grown.laid).append body.laid
  have start : sorted → (state.head.span.cover yes.2).start.toNat = state.place :=
    start_head_cover fun ordered => by
      rw [body.start ordered]
      exact (onward.trans read).place ordered
  have forward : sorted → state.place < second.place := fun ordered =>
    Nat.lt_of_le_of_lt ((onward.trans read).place ordered) (body.moved ordered)
  refine Gives.atKind (gives_ite (fun _ => ?_) fun _ => ?_)
  · refine gives_newStmt ⟨fun _ => rfl, fun _ => rfl, fun _ => rfl⟩ ?_ start forward
    simpa [Stmt.trees] using head
  refine Gives.advance inside.ready fun skipped _ => ?_
  refine Gives.atKind (gives_ite (fun _ => ?_) fun _ => ?_)
  · refine (less.conditional _ skipped.ready).bind fun nested third _ more => ?_
    have laid := (head.append (.nil skipped)).append more.laid
    refine gives_newStmt ⟨fun _ => rfl, fun _ => rfl, fun _ => rfl⟩ ?_ (fun ordered => ?_) fun ordered => ?_
    · simpa [Stmt.trees] using laid
    · have behind := more.start ordered
      have := skipped.place ordered
      have := forward ordered
      rw [Span.start_cover (by rw [start ordered]; change _ ≤ (Node.stmt nested).place; omega)]
      exact start ordered
    · have := more.moved ordered
      have := skipped.place ordered
      have := forward ordered
      omega
  · refine (less.block _ _ skipped.ready).bind fun no third _ other => ?_
    have laid := (head.append (.nil skipped)).append other.laid
    refine gives_newStmt ⟨fun _ => rfl, fun _ => rfl, fun _ => rfl⟩ ?_ (fun ordered => ?_) fun ordered => ?_
    · simpa [Stmt.trees] using laid
    · have := other.start ordered
      have := skipped.place ordered
      have := forward ordered
      rw [Span.start_cover (by rw [start ordered]; omega)]
      exact start ordered
    · have := other.moved ordered
      have := skipped.place ordered
      have := forward ordered
      omega

private theorem forLoop_planted {fuel : Nat} (less : StmtsPlanted sorted fuel)
    (ready : state.Ready sorted) :
    Gives sorted (forLoop (fuel + 1)) state fun s after =>
      state.Planted sorted after (.stmt s) := by
  rw [forLoop]
  refine Gives.advance ready fun onward moved => ?_
  refine (gives_expect onward.ready _ _ _).bind fun name first named _ => ?_
  refine (gives_expect named.ready _ _ _).bind fun _ second passed _ => ?_
  refine (gives_expression fuel passed.ready).bind fun start third read begun => Gives.peek ?_
  refine (gives_expect read.ready _ _ _).bind fun _ fourth crossed _ => ?_
  refine (gives_expression fuel crossed.ready).bind fun stop fifth ends ended => ?_
  have header := (((Laid.nil ((onward.trans named).trans passed)).append begun.laid).append
    (.nil crossed)).append ended.laid
  -- The step and the block are all that is left; without a step no node is laid for it.
  have finish : ∀ (step : Expr) (last : ParseState),
      fifth.Laid sorted last (Node.expr step).walk →
      Gives sorted (block fuel "for header" >>= fun result =>
        newStmt (.forLoop · name.text name.span start stop step result.1)
          (state.head.span.cover result.2)) last fun s after =>
        state.Planted sorted after (.stmt s) := by
    intro step last stepped
    refine (less.block _ last stepped.onward.ready).bind fun inner final _ body => ?_
    have laid := (header.append stepped).append body.laid
    have before := (header.onward.trans stepped.onward).place
    refine gives_newStmt ⟨fun _ => rfl, fun _ => rfl, fun _ => rfl⟩ ?_ (start_head_cover fun yes => ?_)
      fun yes => ?_
    · simpa [Stmt.trees] using laid
    · rw [body.start yes]
      exact before yes
    · exact Nat.lt_of_le_of_lt (before yes) (body.moved yes)
  refine Gives.atKind (gives_ite (fun _ => ?_) fun _ => ?_)
  · refine Gives.advance ends.ready fun skipped _ => ?_
    refine (gives_expression fuel skipped.ready).bind fun step last _ third => ?_
    exact finish step last ((Laid.nil skipped).append third.laid)
  · have unwritten : Gives sorted (pure .absent) fifth fun step _ => Expr.absent = step :=
      gives_pure ends.ready rfl
    refine unwritten.bind fun step last later same => ?_
    subst same
    exact finish .absent last (.nil later)

private theorem statement_planted {fuel : Nat} (less : StmtsPlanted sorted fuel)
    (ready : state.Ready sorted) :
    Gives sorted (statement (fuel + 1)) state fun s after =>
      state.Planted sorted after (.stmt s) := by
  rw [statement]
  refine Gives.peek ?_
  split
  next ident => exact assign_planted fuel ready ident
  next keyword => exact read_planted ready keyword
  next keyword => exact print_planted fuel ready keyword
  next => exact less.conditional state ready
  next => exact less.whileLoop state ready
  next => exact less.forLoop state ready
  next => exact Gives.advance ready fun onward _ => gives_countError onward.ready
  next => exact gives_fail ready _ _

private theorem stmts_planted (sorted : Prop) (fuel : Nat) : StmtsPlanted sorted fuel := by
  induction fuel with
  | zero =>
    refine ⟨fun terminator done state ready => ?_, fun state ready => ?_, fun owner state ready => ?_,
      fun state ready => ?_, fun state ready => ?_, fun state ready => ?_⟩
    · rw [statements]
      have starved : state.Onward sorted { state with starved := true } := .same ready rfl rfl
      exact ⟨starved, [], (List.append_nil _).symm, .nil starved⟩
    · rw [statement]; exact gives_starve ready
    · rw [block]; exact gives_starve ready
    · rw [conditional]; exact gives_starve ready
    · rw [whileLoop]; exact gives_starve ready
    · rw [forLoop]; exact gives_starve ready
  | succ fuel less =>
    exact ⟨fun terminator done _ => statements_planted less terminator done,
      fun _ => statement_planted less, fun owner _ => block_planted less owner,
      fun _ => conditional_planted less, fun _ => whileLoop_planted less,
      fun _ => forLoop_planted less⟩

end Parser

/-- The nodes that are kept of a file are laid one behind the other, in the order of their places
if offsets can count them. -/
theorem SourceFile.parse_laid (file : SourceFile) (options : ParseOptions) :
    ∃ after : ParseState, after.arenas = (Program.parse options file.tokens).arenas ∧
      (ParseState.start options file.tokens).Laid (file.content.length < 2 ^ 32) after
        (Program.parse options file.tokens).program.nodes := by
  obtain ⟨body, last, tokens, ended, -⟩ := file.tokens_whole.ends
  have ready : (ParseState.start options file.tokens).Ready (file.content.length < 2 ^ 32) := by
    refine ⟨?_, file.tokens_ascending⟩
    change file.tokens.getLast?.map Token.kind = _
    rw [tokens, List.getLast?_append]
    exact congrArg some ended
  obtain ⟨-, more, made, laid⟩ := (Parser.stmts_planted (file.content.length < 2 ^ 32)
    (8 * file.tokens.length + 16)).statements .eof [] _ ready
  have kept : (Program.parse options file.tokens).program.stmts = more := made
  rw [Program.nodes, Stmt.walkAll_eq, kept]
  exact ⟨_, rfl, laid⟩

/-- What is kept of a file is stored in the arenas of the parser. -/
theorem SourceFile.parse_lies (file : SourceFile) (options : ParseOptions) :
    (Program.parse options file.tokens).program.Lies IsIdentifier
      (Program.parse options file.tokens).arenas := by
  obtain ⟨after, arenas, laid⟩ := file.parse_laid options
  have proper : Stmt.AllProper IsIdentifier (Program.parse options file.tokens).program.stmts :=
    Program.parse_proper options fun token member =>
      (file.tokens_whole.faithful token member).ident
  have whole := (Stmt.allProper_iff _).mp proper
  refine
    { stored := fun node inside => arenas ▸ laid.stored node inside
      complete := fun node inside => ?_
      descends := laid.descends
      once := laid.once
      present := fun s member => (show (Node.stmt s).Proper _ from whole s member).present }
  obtain ⟨s, root, below⟩ := Program.mem_nodes.mp inside
  exact Node.Proper.walk (show (Node.stmt s).Proper _ from whole s root) below

/-- Where the node of a number starts. -/
def Arenas.start? (arenas : Arenas) (ref : Ref) : Option UInt32 :=
  (arenas.describe ref).map fun described => described.2.start

/-- Whatever the source and however many errors are allowed, the arenas of the parser hold a forest
below the statements of the program, and following the numbers gives those statements. A walk goes
through without a fault and meets every node of the forest once, and in source order if offsets can
count the file. -/
theorem SourceFile.parse_forest (file : SourceFile) (options : ParseOptions) :
    let parsed := Program.parse options file.tokens
    parsed.arenas.Forest parsed.roots ∧
      parsed.arenas.trees parsed.roots = .ok parsed.program.stmts ∧
      ∃ visits, parsed.arenas.walk {} parsed.roots = .ok visits ∧ visits.Nodup ∧
        (∀ ref, ref ∈ visits ↔ parsed.arenas.Reaches parsed.roots ref) ∧
        (file.content.length < 2 ^ 32 → visits.Pairwise fun a b => ∃ first second,
          parsed.arenas.start? a = some first ∧ parsed.arenas.start? b = some second ∧
            first ≤ second) := by
  intro parsed
  have lies := file.parse_lies options
  obtain ⟨after, -, laid⟩ := file.parse_laid options
  refine ⟨lies.forest, lies.trees_eq, _, lies.walk_eq, lies.nodup_refs, fun ref => ?_, fun yes => ?_⟩
  · exact List.mem_map.trans (lies.reaches_iff ref).symm
  have starts : ∀ node ∈ parsed.program.nodes,
      parsed.arenas.start? node.ref = some node.site.span.start := fun node inside => by
    rw [Arenas.start?, Arenas.describe_eq (lies.stored node inside)]
    rfl
  refine List.pairwise_map.mpr ((laid.ordered yes).imp_of_mem fun here there before => ?_)
  exact ⟨_, _, starts _ here, starts _ there, UInt32.le_iff_toNat_le.mpr before.1⟩

end Minilang
