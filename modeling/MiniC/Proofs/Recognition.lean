import MiniC.Proofs.ChainReading
import MiniC.Proofs.Resolution
import MiniC.Proofs.TokenLines

/-!
# What a reader has read

A reader's frames and focus say which productions have been begun, and so which kinds have been
read: `Expr.HasRead` and `Stmt.HasRead` relate a state to the kinds that lead to it, as pieces of
derivations. Each token that is taken keeps the relation (`Stmt.HasRead.step`), and where the end of
the tokens is taken the pieces make up a whole derivation (`Stmt.HasRead.derivation`). Hence every
stream that is accepted is derived.

The trees that the state carries play no part here. That they are those of a resolved derivation
follows from how such a derivation is read.
-/

namespace MiniC

namespace Grammar

/-- The arguments before the one that is being read, each with the comma behind it. -/
def donePrefix (cs : List Chain) : List Kind := cs.flatMap fun c => c.frontier ++ [.mark .comma]

theorem donePrefix_append (cs : List Chain) (c : Chain) :
    donePrefix (cs ++ [c]) = donePrefix cs ++ (c.frontier ++ [.mark .comma]) := by
  simp [donePrefix]

theorem argFrontier_append (cs : List Chain) (c : Chain) :
    argFrontier (cs ++ [c]) = donePrefix cs ++ c.frontier := by
  have hmore : ∀ ds,
      moreArgFrontier (ds ++ [c]) = .mark .comma :: (donePrefix ds ++ c.frontier) := by
    intro ds
    induction ds with
    | nil => simp [moreArgFrontier, donePrefix]
    | cons d ds ih => simp [moreArgFrontier, donePrefix, ih]
  cases cs with
  | nil => simp [argFrontier, moreArgFrontier, donePrefix]
  | cons d ds => simp [argFrontier, hmore, donePrefix]

end Grammar

namespace Expr

open Grammar

variable {g : Grouping}

/-- The kinds `ks` have been read when the frames have just been begun. -/
inductive Opened : List Frame → List Kind → Prop
  | nil : Opened [] []
  | operator {frames floor left o pre ks} (h : Opened frames pre) (c : Chain)
      (hks : ks = pre ++ (c.frontier ++ [.op o])) : Opened (.operator floor left o :: frames) ks
  | group {frames floor pre ks} (h : Opened frames pre) (hks : ks = pre ++ [.mark .lparen]) :
      Opened (.group floor :: frames) ks
  | assign {frames floor x pre ks} (h : Opened frames pre)
      (hks : ks = pre ++ [.ident x, .mark .assign]) : Opened (.assign floor x :: frames) ks
  | call {frames floor f args pre ks} (h : Opened frames pre) (done : List Chain)
      (hks : ks = pre ++ .ident f :: .mark .lparen :: donePrefix done) :
      Opened (.call floor f args :: frames) ks

/-- The kinds `ks` lead to the state. -/
inductive HasRead : Reader → List Kind → Prop
  | operand {frames floor ks} (h : Opened frames ks) : HasRead ⟨.operand floor, frames⟩ ks
  | name {frames floor x pre ks} (h : Opened frames pre) (hks : ks = pre ++ [.ident x]) :
      HasRead ⟨.name floor x, frames⟩ ks
  | arguments {frames floor f pre ks} (h : Opened frames pre)
      (hks : ks = pre ++ [.ident f, .mark .lparen]) : HasRead ⟨.arguments floor f, frames⟩ ks
  | value {frames floor e pre ks} (h : Opened frames pre) (c : Chain)
      (hks : ks = pre ++ c.frontier) : HasRead ⟨.value floor e, frames⟩ ks

/-- The step accounts for all that has been read, the kinds `ks` and then a token of kind `k`: if
it goes on, they lead to its state, and if the expression was over before the token, `ks` is one. -/
def Step.Accounts (ks : List Kind) (k : Kind) : Step → Prop
  | .more r => HasRead r (ks ++ [k])
  | .done _ => ∃ c : Chain, ks = c.frontier
  | .fail _ => True

namespace Reader

theorem operand_accounts {frames : List Frame} {ks : List Kind} (h : Opened frames ks)
    (floor : Nat) (t : Token) : (operand floor frames t).Accounts ks t.kind := by
  unfold operand
  split
  · rename_i n hk
    exact .value h (.last (.number n)) (by rw [hk]; rfl)
  · rename_i raw hk
    exact .value h (.last (.string raw)) (by rw [hk]; rfl)
  · rename_i x hk
    exact .name h (by rw [hk])
  · rename_i hk
    exact .operand (.group h (by rw [hk]))
  · trivial

theorem eq_of_operator?_eq_some {floor : Nat} {k : Kind} {o : BinOp}
    (h : operator? g floor k = some o) : k = .op o := by
  cases k with
  | op o' =>
    simp only [operator?, Option.ite_none_right_eq_some, Option.some.injEq] at h
    rw [h.2]
  | _ => simp [operator?] at h

theorem join_accounts {frames : List Frame} {pre : List Kind} (h : Opened frames pre) (c : Chain)
    {floor : Nat} {k : Kind} {o : BinOp} (ho : operator? g floor k = some o) (e : Expr) :
    (join g floor e o frames).Accounts (pre ++ c.frontier) k := by
  rw [eq_of_operator?_eq_some ho]
  exact .operand (.operator h c (by rw [List.append_assoc]))

/-- A token behind a finished chain: the frames around it are completed one after the other, the
links of one chain joined into it. -/
theorem close_accounts (t : Token) {frames : List Frame} {pre : List Kind}
    (h : Opened frames pre) : ∀ (c : Chain) (e : Expr),
    (close g e t frames).Accounts (pre ++ c.frontier) t.kind := by
  induction h with
  | nil =>
    intro c e
    exact ⟨c, rfl⟩
  | @operator frames floor left o pre ks h c' hks ih =>
    intro c e
    have hchain : ks ++ c.frontier = pre ++ (c'.extend o c).frontier := by
      simp [hks, Chain.frontier_extend]
    rw [close, hchain]
    split
    · rename_i ho
      exact join_accounts h _ ho _
    · exact ih _ _
  | @assign frames floor x pre ks h hks ih =>
    intro c e
    have hchain : ks ++ c.frontier = pre ++ (Chain.last (.assign x c)).frontier := by
      simp [hks, Chain.frontier, Operand.frontier]
    rw [close, hchain]
    split
    · rename_i ho
      exact join_accounts h _ ho _
    · exact ih _ _
  | group h hks ih =>
    intro c e
    rw [close]
    split
    · rename_i hk
      exact .value h (.last (.group c)) (by simp [hks, hk, Chain.frontier, Operand.frontier])
    · trivial
  | @call frames floor f args pre ks h done hks ih =>
    intro c e
    rw [close]
    split
    · rename_i hk
      exact .operand (.call h (done ++ [c]) (by simp [hks, hk, donePrefix_append]))
    · rename_i hk
      refine .value h (.last (.call f (done ++ [c]))) ?_
      simp [hks, hk, Chain.frontier, Operand.frontier, argFrontier_append]
    · trivial

theorem after_accounts {frames : List Frame} {pre : List Kind} (h : Opened frames pre) (c : Chain)
    (floor : Nat) (e : Expr) (t : Token) :
    (after g floor e t frames).Accounts (pre ++ c.frontier) t.kind := by
  unfold after
  split
  · rename_i ho
    exact join_accounts h c ho e
  · exact close_accounts t h c e

end Reader

namespace Reader

theorem close_eof_ne_more {r : Reader} : ∀ (frames : List Frame) (e : Expr),
    close g e ⟨.eof, 0⟩ frames ≠ .more r
  | [], _ => by simp [close]
  | .operator _ _ _ :: frames, _ => close_eof_ne_more frames _
  | .assign _ _ :: frames, _ => close_eof_ne_more frames _
  | .group _ :: _, _ => by simp [close]
  | .call _ _ _ :: _, _ => by simp [close]

/-- No expression goes on with the end of the tokens. -/
theorem step_eof_ne_more (r : Reader) {r' : Reader} : r.step g ⟨.eof, 0⟩ ≠ .more r' := by
  rcases r with ⟨focus, frames⟩
  cases focus with
  | operand floor => simp [step, operand]
  | name floor x => exact close_eof_ne_more frames _
  | arguments floor f => simp [step, operand]
  | value floor e => exact close_eof_ne_more frames _

end Reader

theorem HasRead.step {r : Reader} {ks : List Kind} (h : HasRead r ks) (t : Token) :
    (r.step g t).Accounts ks t.kind := by
  cases h with
  | operand h => exact Reader.operand_accounts h _ t
  | @name frames floor x pre _ h hks =>
    subst hks
    simp only [Reader.step]
    split
    · rename_i hk
      exact .arguments h (by rw [hk, List.append_assoc]; rfl)
    · rename_i hk
      exact .operand (.assign h (by rw [hk, List.append_assoc]; rfl))
    · exact Reader.after_accounts h (.last (.name x)) floor _ t
  | @arguments frames floor f pre _ h hks =>
    subst hks
    simp only [Reader.step]
    split
    · rename_i hk
      exact .value h (.last (.call f []))
        (by simp [hk, Chain.frontier, Operand.frontier, argFrontier])
    · exact Reader.operand_accounts (.call h [] (by simp [donePrefix])) _ t
  | value h c hks =>
    subst hks
    exact Reader.after_accounts h c _ _ t

end Expr

namespace Grammar

theorem bodyFrontier_append (ss : List Statement) (s : Statement) :
    bodyFrontier (ss ++ [s]) = bodyFrontier ss ++ s.frontier := by
  induction ss with
  | nil => simp [bodyFrontier]
  | cons t ss ih => simp [bodyFrontier, ih]

/-- The parameters before the one that is being read, each with the comma behind it. -/
def paramPrefix (ps : List Param) : List Kind := ps.flatMap fun p => p.frontier ++ [.mark .comma]

theorem paramFrontier_append (ps : List Param) (p : Param) :
    paramFrontier (ps ++ [p]) = paramPrefix ps ++ p.frontier := by
  have hmore : ∀ qs, moreParamFrontier (qs ++ [p]) =
      .mark .comma :: (paramPrefix qs ++ p.frontier) := by
    intro qs
    induction qs with
    | nil => simp [moreParamFrontier, paramPrefix]
    | cons q qs ih => simp [moreParamFrontier, paramPrefix, ih]
  cases ps with
  | nil => simp [paramFrontier, moreParamFrontier, paramPrefix]
  | cons q qs => simp [paramFrontier, hmore, paramPrefix]

end Grammar

namespace Stmt

open Grammar

/-- The kinds `ks` have been read when the frames have just been begun, those of the finished items
among them. -/
inductive Opened : List Frame → List Kind → Prop
  | nil (is : List Item) {ks} (hks : ks = is.flatMap Item.frontier) : Opened [] ks
  | block {frames stmts pre ks} (h : Opened frames pre) (done : List Statement)
      (hks : ks = pre ++ .mark .lbrace :: bodyFrontier done) :
      Opened (.inside .block stmts :: frames) ks
  | function {f names stmts pre ks} (h : Opened [] pre) (ps : List Param) (done : List Statement)
      (hks : ks = pre ++ (functionFrontier f ps ++ bodyFrontier done)) :
      Opened [.inside (.function f names) stmts] ks
  | thenOf {frames e pre ks} (h : Opened frames pre) (c : Chain)
      (hks : ks = pre ++ headFrontier .if_ c) : Opened (.under (.thenOf e) :: frames) ks
  | elseOf {frames e t pre ks} (h : Opened frames pre) (c : Chain) (s : Statement)
      (hks : ks = pre ++ (headFrontier .if_ c ++ (s.frontier ++ [.keyword .else_]))) :
      Opened (.under (.elseOf e t) :: frames) ks
  | whileOf {frames e pre ks} (h : Opened frames pre) (c : Chain)
      (hks : ks = pre ++ headFrontier .while_ c) : Opened (.under (.whileOf e) :: frames) ks
  | forOf {frames i e e' pre ks} (h : Opened frames pre) (init : ForInit) (c u : Chain)
      (hks : ks = pre ++ forFrontier init c u) : Opened (.under (.forOf i e e') :: frames) ks

/-- The kinds `ks` lead to a place where a declaration may start. -/
inductive Placed : Place → List Frame → List Kind → Prop
  | statement {frames ks} (h : Opened frames ks) (hframes : frames ≠ []) :
      Placed .statement frames ks
  | forInit {frames pre ks} (h : Opened frames pre)
      (hks : ks = pre ++ [.keyword .for_, .mark .lparen]) : Placed .forInit frames ks

/-- The kinds `ks` lead to an expression that is read for the purpose. -/
inductive Asked : Purpose → List Frame → List Kind → Prop
  | declInit {place frames x pre ks} (h : Placed place frames pre)
      (hks : ks = pre ++ [.keyword .int, .ident x, .mark .assign]) :
      Asked (.declInit place x) frames ks
  | eval {frames ks} (h : Opened frames ks) : Asked (.eval .statement) frames ks
  | forEval {frames pre ks} (h : Opened frames pre)
      (hks : ks = pre ++ [.keyword .for_, .mark .lparen]) : Asked (.eval .forInit) frames ks
  | ret {frames pre ks} (h : Opened frames pre) (hks : ks = pre ++ [.keyword .return_]) :
      Asked .ret frames ks
  | ifCond {frames pre ks} (h : Opened frames pre)
      (hks : ks = pre ++ [.keyword .if_, .mark .lparen]) : Asked .ifCond frames ks
  | whileCond {frames pre ks} (h : Opened frames pre)
      (hks : ks = pre ++ [.keyword .while_, .mark .lparen]) : Asked .whileCond frames ks
  | forCond {frames i pre ks} (h : Opened frames pre) (init : ForInit)
      (hks : ks = pre ++ .keyword .for_ :: .mark .lparen :: init.frontier) :
      Asked (.forCond i) frames ks
  | forUpdate {frames i e pre ks} (h : Opened frames pre) (init : ForInit) (c : Chain)
      (hks : ks = pre ++ .keyword .for_ :: .mark .lparen ::
        (init.frontier ++ (c.frontier ++ [.mark .semicolon]))) : Asked (.forUpdate i e) frames ks

def Header.word : Header → Keyword
  | .if_ => .if_
  | .while_ => .while_
  | .for_ => .for_

/-- `INT IDENT '('` -/
def functionStart (f : String) : List Kind := [.keyword .int, .ident f, .mark .lparen]

/-- The kinds `ks` lead to the state. -/
inductive HasRead : Reader → List Kind → Prop
  | ready {items frames ks} (h : Opened frames ks) : HasRead ⟨items, .ready, frames⟩ ks
  | afterThen {items frames e t pre ks} (h : Opened frames pre) (c : Chain) (s : Statement)
      (hks : ks = pre ++ (headFrontier .if_ c ++ s.frontier)) :
      HasRead ⟨items, .afterThen e t, frames⟩ ks
  | header {items frames word pre ks} (h : Opened frames pre)
      (hks : ks = pre ++ [.keyword word.word]) : HasRead ⟨items, .header word, frames⟩ ks
  | forInit {items frames pre ks} (h : Opened frames pre)
      (hks : ks = pre ++ [.keyword .for_, .mark .lparen]) : HasRead ⟨items, .forInit, frames⟩ ks
  | declName {items place frames pre ks} (h : Placed place frames pre)
      (hks : ks = pre ++ [.keyword .int]) : HasRead ⟨items, .declName place, frames⟩ ks
  | declAssign {items place x frames pre ks} (h : Placed place frames pre)
      (hks : ks = pre ++ [.keyword .int, .ident x]) :
      HasRead ⟨items, .declAssign place x, frames⟩ ks
  | expr {items purpose r frames pre ls ks} (h : Asked purpose frames pre)
      (hr : Expr.HasRead r ls) (hks : ks = pre ++ ls) : HasRead ⟨items, .expr purpose r, frames⟩ ks
  | functionName {items pre ks} (h : Opened [] pre) (hks : ks = pre ++ [.keyword .int]) :
      HasRead ⟨items, .functionName, []⟩ ks
  | functionParen {items f pre ks} (h : Opened [] pre)
      (hks : ks = pre ++ [.keyword .int, .ident f]) : HasRead ⟨items, .functionParen f, []⟩ ks
  | params {items f pre ks} (h : Opened [] pre) (hks : ks = pre ++ functionStart f) :
      HasRead ⟨items, .params f, []⟩ ks
  | param {items f names pre ks} (h : Opened [] pre) (ps : List Param)
      (hks : ks = pre ++ (functionStart f ++ paramPrefix ps)) :
      HasRead ⟨items, .param f names, []⟩ ks
  | paramName {items f names pre ks} (h : Opened [] pre) (ps : List Param)
      (hks : ks = pre ++ (functionStart f ++ (paramPrefix ps ++ [.keyword .int]))) :
      HasRead ⟨items, .paramName f names, []⟩ ks
  | afterParam {items f names pre ks} (h : Opened [] pre) (ps : List Param) (p : Param)
      (hks : ks = pre ++ (functionStart f ++ (paramPrefix ps ++ p.frontier))) :
      HasRead ⟨items, .afterParam f names, []⟩ ks
  | functionBrace {items f names pre ks} (h : Opened [] pre) (ps : List Param)
      (hks : ks = pre ++ (functionStart f ++ (paramFrontier ps ++ [.mark .rparen]))) :
      HasRead ⟨items, .functionBrace f names, []⟩ ks

theorem HasRead.start : HasRead Reader.start [] := .ready (.nil [] rfl)

/-- A finished item goes to those before it. -/
theorem Opened.item {pre : List Kind} (h : Opened [] pre) (i : Item) :
    Opened [] (pre ++ i.frontier) := by
  cases h with
  | nil is hks => exact .nil (is ++ [i]) (by simp [hks])

/-- A statement behind an open brace goes to those before it. -/
theorem Opened.inside {body : Body} {stmts stmts' : List Stmt} {frames : List Frame}
    {pre : List Kind} (h : Opened (.inside body stmts :: frames) pre) (s : Statement) :
    Opened (.inside body stmts' :: frames) (pre ++ s.frontier) := by
  cases h with
  | block h done hks => exact .block h (done ++ [s]) (by simp [hks, bodyFrontier_append])
  | function h ps done hks =>
    exact .function h ps (done ++ [s]) (by simp [hks, bodyFrontier_append])

/-- A clause and the statement behind it are a statement, which does not start with `int`. -/
theorem Opened.under {clause : Clause} {frames : List Frame} {pre : List Kind}
    (h : Opened (.under clause :: frames) pre) (s : Statement) :
    ∃ (s' : Statement) (pre' : List Kind), Opened frames pre' ∧
      pre ++ s.frontier = pre' ++ s'.frontier ∧ s'.frontier.head? ≠ some (.keyword .int) := by
  cases h with
  | thenOf h c hks =>
    refine ⟨.ifThen c s, _, h, by simp [hks, Statement.frontier], ?_⟩
    simp [Statement.frontier, headFrontier]
  | elseOf h c s' hks =>
    refine ⟨.ifElse c s' s, _, h, by simp [hks, Statement.frontier], ?_⟩
    simp [Statement.frontier, headFrontier]
  | whileOf h c hks =>
    refine ⟨.whileLoop c s, _, h, by simp [hks, Statement.frontier], ?_⟩
    simp [Statement.frontier, headFrontier]
  | forOf h init c u hks =>
    refine ⟨.forLoop init c u s, _, h, by simp [hks, Statement.frontier], ?_⟩
    simp [Statement.frontier, forFrontier]

/-- A finished statement is taken by the frames that it completes. On the top level it becomes an
item, and so must not start with `int`. -/
theorem HasRead.deliver (items : List Stmt) : ∀ {frames : List Frame} {pre : List Kind},
    Opened frames pre → ∀ (s : Statement) (t : Stmt),
      (frames = [] → s.frontier.head? ≠ some (.keyword .int)) →
      HasRead (Reader.deliver items t frames) (pre ++ s.frontier)
  | [], _, h, s, _, hint => .ready (h.item (.statement s (hint rfl)))
  | .inside _ _ :: _, _, h, s, _, _ => .ready (h.inside s)
  | .under (.thenOf _) :: _, _, .thenOf h c rfl, s, _, _ =>
    .afterThen h c s (List.append_assoc ..)
  | .under (.elseOf _ _) :: _, _, h, s, t, _ => by
    obtain ⟨s', pre', h', heq, hint⟩ := h.under s
    rw [heq]
    exact HasRead.deliver items h' s' _ fun _ => hint
  | .under (.whileOf _) :: _, _, h, s, t, _ => by
    obtain ⟨s', pre', h', heq, hint⟩ := h.under s
    rw [heq]
    exact HasRead.deliver items h' s' _ fun _ => hint
  | .under (.forOf _ _ _) :: _, _, h, s, t, _ => by
    obtain ⟨s', pre', h', heq, hint⟩ := h.under s
    rw [heq]
    exact HasRead.deliver items h' s' _ fun _ => hint

/-- The same where no `else` follows. -/
theorem Opened.settle (items : List Stmt) : ∀ {frames : List Frame} {pre : List Kind},
    Opened frames pre → ∀ (s : Statement) (t : Stmt),
      (frames = [] → s.frontier.head? ≠ some (.keyword .int)) →
      Opened (Reader.settle items t frames).2 (pre ++ s.frontier)
  | [], _, h, s, _, hint => h.item (.statement s (hint rfl))
  | .inside _ _ :: _, _, h, s, _, _ => h.inside s
  | .under _ :: _, _, h, s, t, _ => by
    obtain ⟨s', pre', h', heq, hint⟩ := h.under s
    rw [heq]
    exact Opened.settle items h' s' _ fun _ => hint

theorem HasRead.closeBrace (items : List Stmt) {body : Body} {stmts : List Stmt}
    {frames : List Frame} {pre : List Kind} (h : Opened (.inside body stmts :: frames) pre)
    (t : Stmt) : HasRead (Reader.deliver items t frames) (pre ++ [.mark .rbrace]) := by
  cases h with
  | block h done hks =>
    rw [hks, List.append_assoc]
    exact HasRead.deliver items h (.block done) t fun _ => by simp [Statement.frontier]
  | @function f _ _ _ _ h ps done hks =>
    rw [hks, List.append_assoc, List.append_assoc]
    exact .ready (h.item (.function f ps done))

theorem HasRead.complete (items : List Stmt) {purpose : Purpose} {frames : List Frame}
    {pre : List Kind} (h : Asked purpose frames pre) (c : Chain) (e : Expr) :
    HasRead (Reader.complete items frames e purpose)
      (pre ++ (c.frontier ++ [.mark purpose.closer])) := by
  cases h with
  | @declInit place _ x _ _ h hks =>
    subst hks
    cases h with
    | statement h hframes =>
      rw [List.append_assoc]
      exact HasRead.deliver items h (.decl x c) (.decl x e) (absurd · hframes)
    | forInit h hks =>
      subst hks
      exact .expr (.forCond h (.decl x c) rfl) (.operand .nil)
        (by simp [ForInit.frontier, declFrontier, Purpose.closer])
  | eval h =>
    obtain ⟨k, ks, hc, hk⟩ := c.frontier_eq_cons
    refine HasRead.deliver items h (.eval c) (.eval e) fun _ => ?_
    rw [Statement.frontier, hc]
    rintro ⟨⟩
    exact hk
  | forEval h hks =>
    subst hks
    exact .expr (.forCond h (.eval c) rfl) (.operand .nil)
      (by simp [ForInit.frontier, Purpose.closer])
  | ret h hks =>
    subst hks
    rw [List.append_assoc]
    exact HasRead.deliver items h (.ret c) (.ret e) fun _ => by simp [Statement.frontier]
  | ifCond h hks =>
    subst hks
    exact .ready (.thenOf h c (by simp [headFrontier, Purpose.closer]))
  | whileCond h hks =>
    subst hks
    exact .ready (.whileOf h c (by simp [headFrontier, Purpose.closer]))
  | forCond h init hks =>
    subst hks
    exact .expr (.forUpdate h init c rfl) (.operand .nil) (by simp [Purpose.closer])
  | forUpdate h init c' hks =>
    subst hks
    exact .ready (.forOf h init c' c (by simp [forFrontier, Purpose.closer]))

theorem HasRead.inExpr (items : List Stmt) {purpose : Purpose} {frames : List Frame}
    {pre ls : List Kind} {r : Expr.Reader} (h : Asked purpose frames pre) (hr : Expr.HasRead r ls)
    {t : Token} {r' : Reader} (hs : Reader.inExpr items frames purpose r t = .ok r') :
    HasRead r' (pre ++ ls ++ [t.kind]) := by
  have haccounts := hr.step (g := .standard) t
  unfold Reader.inExpr at hs
  rcases hstep : r.step .standard t with r₁ | e | error <;> rw [hstep] at hs haccounts
  · cases hs
    exact .expr h haccounts (List.append_assoc ..)
  · simp only at hs
    split at hs
    · rename_i hk
      cases hs
      obtain ⟨c, rfl⟩ := haccounts
      rw [hk, List.append_assoc]
      exact HasRead.complete items h c e
    · cases hs
  · cases hs

theorem HasRead.statement {items : List Stmt} {frames : List Frame} {ks : List Kind}
    (h : Opened frames ks) {t : Token} {r : Reader} (hint : frames = [] → t.kind ≠ .keyword .int)
    (hs : Reader.statement items frames t = .ok r) : HasRead r (ks ++ [t.kind]) := by
  unfold Reader.statement at hs
  split at hs
  · rename_i hk
    cases hs
    exact .ready (.block h [] (by rw [hk]; rfl))
  · rename_i hk
    cases hs
    exact .declName (.statement h fun hf => hint hf hk) (by rw [hk])
  · rename_i hk
    cases hs
    exact .expr (.ret h rfl) (.operand .nil) (by rw [hk, List.append_nil])
  · rename_i hk
    cases hs
    exact .header h (by rw [hk]; rfl)
  · rename_i hk
    cases hs
    exact .header h (by rw [hk]; rfl)
  · rename_i hk
    cases hs
    exact .header h (by rw [hk]; rfl)
  · have := HasRead.inExpr items (.eval h) (.operand .nil) hs
    rwa [List.append_nil] at this

theorem HasRead.readyStep {items : List Stmt} {frames : List Frame} {ks : List Kind}
    (h : Opened frames ks) {t : Token} {r : Reader} (heof : t.kind ≠ .eof)
    (hs : Reader.ready items frames t = .ok r) : HasRead r (ks ++ [t.kind]) := by
  unfold Reader.ready at hs
  split at hs
  · rename_i hk
    cases hs
    exact .functionName h (by rw [hk])
  · rename_i hk
    exact absurd hk heof
  · rename_i hk
    cases hs
    rw [hk]
    exact HasRead.closeBrace items h _
  · cases hs
  · rename_i hint _ _ _
    exact HasRead.statement h hint hs

theorem expectName_eq_ok {t : Token} {next : String → Reader} {r : Reader}
    (hs : Reader.expectName t next = .ok r) : ∃ x, t.kind = .ident x ∧ next x = r := by
  unfold Reader.expectName at hs
  split at hs
  · rename_i x hk
    cases hs
    exact ⟨x, hk, rfl⟩
  · cases hs

theorem expect_eq_ok {m : Mark} {t : Token} {next r : Reader}
    (hs : Reader.expect m t next = .ok r) : t.kind = .mark m ∧ next = r := by
  unfold Reader.expect at hs
  split at hs
  · rename_i hk
    cases hs
    exact ⟨hk, rfl⟩
  · cases hs

/-- A parameter, with or without its type, behind those that are done. -/
theorem HasRead.paramStep {items : List Stmt} {focus : Focus} {f : String} {names : List String}
    {pre : List Kind} (h : Opened [] pre) (ps : List Param) {t : Token} {r : Reader}
    (hs : Reader.param ⟨items, focus, []⟩ f names t = .ok r) :
    HasRead r (pre ++ (functionStart f ++ paramPrefix ps) ++ [t.kind]) := by
  unfold Reader.param at hs
  split at hs
  · rename_i hk
    cases hs
    exact .paramName h ps (by simp [hk])
  · obtain ⟨x, hk, rfl⟩ := expectName_eq_ok hs
    exact .afterParam h ps ⟨false, x⟩ (by simp [hk, Param.frontier])

/-- A token that is taken keeps account of what has been read. -/
theorem HasRead.step {r r' : Reader} {ks : List Kind} (h : HasRead r ks) {t : Token}
    (heof : t.kind ≠ .eof) (hs : r.step t = .ok r') : HasRead r' (ks ++ [t.kind]) := by
  cases h with
  | ready h => exact HasRead.readyStep h heof hs
  | afterThen h c s hks =>
    subst hks
    simp only [Reader.step] at hs
    split at hs
    · rename_i hk
      cases hs
      exact .ready (.elseOf h c s (by simp [hk]))
    · exact HasRead.readyStep (h.settle _ (.ifThen c s) _ fun _ => by
        simp [Statement.frontier, headFrontier]) heof hs
  | @header _ _ word _ _ h hks =>
    subst hks
    obtain ⟨hk, rfl⟩ := expect_eq_ok hs
    cases word with
    | if_ => exact .expr (.ifCond h rfl) (.operand .nil) (by simp [hk, Header.word])
    | while_ => exact .expr (.whileCond h rfl) (.operand .nil) (by simp [hk, Header.word])
    | for_ => exact .forInit h (by simp [hk, Header.word])
  | forInit h hks =>
    subst hks
    simp only [Reader.step] at hs
    split at hs
    · rename_i hk
      cases hs
      exact .expr (.forCond h .none rfl) (.operand .nil) (by simp [hk, ForInit.frontier])
    · rename_i hk
      cases hs
      exact .declName (.forInit h rfl) (by rw [hk])
    · have := HasRead.inExpr _ (.forEval h rfl) (.operand .nil) hs
      rwa [List.append_nil] at this
  | declName h hks =>
    subst hks
    obtain ⟨x, hk, rfl⟩ := expectName_eq_ok hs
    exact .declAssign h (by simp [hk])
  | declAssign h hks =>
    subst hks
    obtain ⟨hk, rfl⟩ := expect_eq_ok hs
    exact .expr (.declInit h rfl) (.operand .nil) (by simp [hk])
  | expr h hr hks =>
    subst hks
    exact HasRead.inExpr _ h hr hs
  | functionName h hks =>
    subst hks
    obtain ⟨f, hk, rfl⟩ := expectName_eq_ok hs
    exact .functionParen h (by simp [hk])
  | functionParen h hks =>
    subst hks
    obtain ⟨hk, rfl⟩ := expect_eq_ok hs
    exact .params h (by simp [hk, functionStart])
  | @params _ f pre _ h hks =>
    subst hks
    simp only [Reader.step] at hs
    split at hs
    · rename_i hk
      cases hs
      exact .functionBrace h [] (by simp [hk, paramFrontier])
    · have := HasRead.paramStep h [] hs
      rwa [show paramPrefix [] = [] from rfl, List.append_nil] at this
  | param h ps hks =>
    subst hks
    exact HasRead.paramStep h ps hs
  | paramName h ps hks =>
    subst hks
    obtain ⟨x, hk, rfl⟩ := expectName_eq_ok hs
    exact .afterParam h ps ⟨true, x⟩ (by simp [hk, Param.frontier])
  | afterParam h ps p hks =>
    subst hks
    simp only [Reader.step] at hs
    split at hs
    · rename_i hk
      cases hs
      exact .param h (ps ++ [p]) (by simp [hk, paramPrefix])
    · obtain ⟨hk, rfl⟩ := expect_eq_ok hs
      exact .functionBrace h (ps ++ [p]) (by simp [hk, paramFrontier_append])
  | functionBrace h ps hks =>
    subst hks
    obtain ⟨hk, rfl⟩ := expect_eq_ok hs
    exact .ready (.function h ps [] (by simp [hk, functionFrontier, functionStart, bodyFrontier]))

theorem HasRead.run {r' : Reader} : ∀ {ls : List Kind} {r : Reader} {ks : List Kind},
    HasRead r ks → .eof ∉ ls → r.run ls = .ok r' → HasRead r' (ks ++ ls)
  | [], r, ks, h, _, hs => by
    cases hs
    rwa [List.append_nil]
  | k :: ls, r, ks, h, heof, hs => by
    rw [Reader.run_cons] at hs
    rcases hstep : r.step ⟨k, 0⟩ with error | r₁ <;> rw [hstep] at hs
    · cases hs
    · simp only [List.mem_cons, not_or] at heof
      have h₁ := h.step (Ne.symm heof.1) hstep
      have := h₁.run heof.2 hs
      rwa [List.append_assoc] at this

theorem inExpr_eof_ne_ok {items : List Stmt} {frames : List Frame} {purpose : Purpose}
    {r : Expr.Reader} {r' : Reader} : Reader.inExpr items frames purpose r ⟨.eof, 0⟩ ≠ .ok r' := by
  unfold Reader.inExpr
  rcases hs : r.step .standard ⟨.eof, 0⟩ with r₁ | e | error
  · exact absurd hs (Expr.Reader.step_eof_ne_more r)
  · simp
  · simp

theorem ready_eof_eq_ok {items : List Stmt} {frames : List Frame} {r : Reader}
    (hs : Reader.ready items frames ⟨.eof, 0⟩ = .ok r) : frames = [] := by
  rcases frames with _ | ⟨_ | _, _⟩
  · rfl
  · cases hs
  · cases hs

theorem Opened.derivation {ks : List Kind} (h : Opened [] ks) :
    ∃ d : Derivation, d.frontier = ks := by
  cases h with
  | nil is hks => exact ⟨⟨is⟩, hks.symm⟩

/-- Only between two items can the tokens end, and then a derivation has been read. -/
theorem HasRead.derivation {r r' : Reader} {ks : List Kind} (h : HasRead r ks)
    (hs : r.step ⟨.eof, 0⟩ = .ok r') : ∃ d : Derivation, d.frontier = ks := by
  cases h with
  | ready h =>
    obtain rfl := ready_eof_eq_ok hs
    exact h.derivation
  | @afterThen items _ e t _ _ h c s hks =>
    subst hks
    have hframes := ready_eof_eq_ok hs
    have hsettle := h.settle items (.ifThen c s) (.ifElse e t none) fun _ => by
      simp [Statement.frontier, headFrontier]
    rw [hframes] at hsettle
    exact hsettle.derivation
  | @forInit items frames _ _ h hks =>
    have hs : Reader.inExpr items frames (.eval .forInit) .start ⟨.eof, 0⟩ = .ok r' := hs
    exact absurd hs inExpr_eof_ne_ok
  | expr h hr hks => exact absurd hs inExpr_eof_ne_ok
  | _ => cases hs

end Stmt

open Stmt (HasRead)

/-- What is read as a program is derived by the grammar. -/
theorem Program.exists_derivation {ts : List Token} {p : Program} (h : parse ts = .ok p) :
    ∃ d : Derivation, d.frontier = (Stream.ofTokens ts).tokens.map Token.kind := by
  obtain ⟨r₁, r₂, hrun, heof, -⟩ := parse_eq_ok_iff.1 h
  exact (HasRead.start.run (eof_notMem_tokens ts) hrun).derivation heof

end MiniC
