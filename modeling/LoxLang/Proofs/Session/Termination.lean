import LoxLang.Proofs.Machine.Fuel
import LoxLang.Proofs.Session.Containment

/-!
# Programs without loops end

Without loops, a run can go on only by calls.  Each call is one further down, and the limit on
their depth is finite; what is called runs a text that is smaller than some bound, because every
function in the store was declared in one of the sources.  So there is a weight that gets smaller
with each thing that a run starts (`Activity.weight`): the room for calls comes first, and the size
of what is left of the text second.  An initializer is called by the call of its class without
counting as a call of its own, and for this the weight has room as well.

What makes this more than an induction on the text is that functions are reached through values.
The store holds nothing but functions without loops, within the bound, and that is a property of
machines that every run keeps (`Likeness.loopless`).
-/

namespace LoxLang

/-! ## Texts without loops -/

mutual

/-- **There is no loop in a statement**, nor in the functions that it declares. -/
def Stmt.LoopFree : Stmt → Prop
  | .block body => Stmt.LoopFreeAll body
  | .ifThen _ thenBranch none => thenBranch.LoopFree
  | .ifThen _ thenBranch (some elseBranch) => thenBranch.LoopFree ∧ elseBranch.LoopFree
  | .whileLoop _ _ => False
  | .function decl => decl.LoopFree
  | .classDecl _ _ methods => FunDecl.LoopFreeAll methods
  | .expression _ | .print _ | .var _ _ | .breakLoop _ | .returnValue _ _ => True

def Stmt.LoopFreeAll : List Stmt → Prop
  | [] => True
  | s :: rest => s.LoopFree ∧ Stmt.LoopFreeAll rest

def FunDecl.LoopFree : FunDecl → Prop
  | .mk _ _ body => Stmt.LoopFreeAll body

def FunDecl.LoopFreeAll : List FunDecl → Prop
  | [] => True
  | d :: rest => d.LoopFree ∧ FunDecl.LoopFreeAll rest

end

lemma FunDecl.loopFree_iff (d : FunDecl) : d.LoopFree ↔ Stmt.LoopFreeAll d.body := by
  cases d
  rfl

lemma FunDecl.loopFree_of_mem {ds : List FunDecl} (h : FunDecl.LoopFreeAll ds) {d : FunDecl}
    (hd : d ∈ ds) : d.LoopFree := by
  induction ds with
  | nil => cases hd
  | cons first rest ih =>
    rcases List.mem_cons.mp hd with rfl | hd
    · exact h.1
    · exact ih h.2 hd

lemma Stmt.loopFree_of_mem {body : List Stmt} (h : Stmt.LoopFreeAll body) {s : Stmt}
    (hs : s ∈ body) : s.LoopFree := by
  induction body with
  | nil => cases hs
  | cons first rest ih =>
    rcases List.mem_cons.mp hs with rfl | hs
    · exact h.1
    · exact ih h.2 hs

/-- What a phrase without the words for loops is read as has no loop. -/
def Phrase.LoopFree : (p : Phrase) → p.Result → Prop
  | .statement _, s | .declaration, s => s.LoopFree
  | .function, d => d.LoopFree
  | .methods, ds => FunDecl.LoopFreeAll ds
  | .declarations, body => Stmt.LoopFreeAll body
  | _, _ => True

/-- Is it one of the two words that start a loop? -/
def Token.startsLoop (t : Token) : Bool := t.isKeyword .while_ || t.isKeyword .for_

lemma Derives.loopFree {p : Phrase} {n n' : RefId} {ts : List Token} {r : p.Result}
    (h : Derives p n ts n' r) (hts : ∀ t ∈ ts, t.startsLoop = false) : p.LoopFree r := by
  induction h with
  | whileLoop hkeyword | forLoop hkeyword =>
    have hword := hts _ List.mem_cons_self
    simp [Token.startsLoop, Token.isKeyword, hkeyword] at hword
  | _ =>
    simp_all [Phrase.LoopFree, Stmt.LoopFree, Stmt.LoopFreeAll, FunDecl.LoopFree,
      FunDecl.LoopFreeAll, or_imp]

mutual

/-- What a statement without loops makes has none either, and is smaller. -/
lemma Stmt.LoopFree.makes : (s : Stmt) → s.LoopFree →
    ∀ f ∈ s.makes, f.1.LoopFree ∧ sizeOf f.1 ≤ sizeOf s
  | .block body, h => fun f hf => by
    obtain ⟨hfree, hsize⟩ := Stmt.LoopFreeAll.makes body h f hf
    exact ⟨hfree, by simp only [Stmt.block.sizeOf_spec]; omega⟩
  | .ifThen _ thenBranch none, h => fun f hf => by
    obtain ⟨hfree, hsize⟩ := Stmt.LoopFree.makes thenBranch h f hf
    exact ⟨hfree, by simp only [Stmt.ifThen.sizeOf_spec]; omega⟩
  | .ifThen _ thenBranch (some elseBranch), h => fun f hf => by
    rcases List.mem_append.mp hf with hf | hf
    · obtain ⟨hfree, hsize⟩ := Stmt.LoopFree.makes thenBranch h.1 f hf
      exact ⟨hfree, by simp only [Stmt.ifThen.sizeOf_spec]; omega⟩
    · obtain ⟨hfree, hsize⟩ := Stmt.LoopFree.makes elseBranch h.2 f hf
      exact ⟨hfree, by simp only [Stmt.ifThen.sizeOf_spec, Option.some.sizeOf_spec]; omega⟩
  | .whileLoop _ _, h => False.elim h
  | .function decl, h => fun f hf => by
    rw [List.mem_singleton.mp hf]
    exact ⟨h, by simp only [Stmt.function.sizeOf_spec]; omega⟩
  | .classDecl _ _ methods, h => fun f hf => by
    obtain ⟨d, hd, rfl⟩ := List.mem_map.mp hf
    have hsize := List.sizeOf_lt_of_mem hd
    exact ⟨FunDecl.loopFree_of_mem h hd, by simp only [Stmt.classDecl.sizeOf_spec]; omega⟩
  | .expression _, _ | .print _, _ | .var _ _, _ | .breakLoop _, _ | .returnValue _ _, _ => nofun

lemma Stmt.LoopFreeAll.makes : (body : List Stmt) → Stmt.LoopFreeAll body →
    ∀ f ∈ Stmt.makesAll body, f.1.LoopFree ∧ sizeOf f.1 ≤ sizeOf body
  | [], _ => nofun
  | s :: rest, h => fun f hf => by
    rcases List.mem_append.mp hf with hf | hf
    · obtain ⟨hfree, hsize⟩ := Stmt.LoopFree.makes s h.1 f hf
      exact ⟨hfree, by simp only [List.cons.sizeOf_spec]; omega⟩
    · obtain ⟨hfree, hsize⟩ := Stmt.LoopFreeAll.makes rest h.2 f hf
      exact ⟨hfree, by simp only [List.cons.sizeOf_spec]; omega⟩

end

/-- **Functions without loops**, up to a size. -/
def FunDecl.Bounded (K : Nat) (d : FunDecl) : Prop := d.LoopFree ∧ sizeOf d ≤ K

lemma FunDecl.sizeOf_body_lt (d : FunDecl) : sizeOf d.body < sizeOf d := by
  cases d
  simp only [FunDecl.body, FunDecl.mk.sizeOf_spec]
  omega

lemma FunDecl.bounded_makes {K : Nat} {d : FunDecl} (h : d.Bounded K) :
    ∀ f ∈ Stmt.makesAll d.body, f.1.Bounded K := by
  intro f hf
  obtain ⟨hfree, hsize⟩ := Stmt.LoopFreeAll.makes d.body (d.loopFree_iff.mp h.1) f hf
  exact ⟨hfree, Nat.le_trans hsize (Nat.le_trans (Nat.le_of_lt d.sizeOf_body_lt) h.2)⟩

lemma Likeness.kind_of_eq {t t' : Token} (h : t' = t) : t'.kind = t.kind := by rw [h]

/-- **Nothing is replaced**, and every function is without loops and within a bound. -/
def Likeness.loopless (K : Nat) : Likeness where
  token t t' := t' = t
  ref ref ref' := ref' = ref
  distance _ _ := True
  renames π := π = .identity
  function := fun d _ => d.Bounded K
  global _ := True
  kind := @kind_of_eq
  identity := rfl
  inner := FunDecl.bounded_makes

lemma Likeness.loopless_le {K K' : Nat} (h : K ≤ K') :
    (loopless K).Le (fun _ => True) (loopless K') where
  token := id
  ref _ := id
  distance := id
  renames := id
  function hd := ⟨hd.1, Nat.le_trans hd.2 h⟩

/-! ## The weight of an activity -/

/-- How much there is to do in a task before the next call is entered.  What is called runs a body
within the bound, and a class runs its initializer. -/
noncomputable def Task.weight (K : Nat) : Task → Nat
  | .evaluate e => sizeOf e
  | .evaluateAll es => sizeOf es
  | .invoke .. => 0
  | .call (.builtin ..) .. => 0
  | .call (.function ..) .. => K + 1
  | .call (.cls _) .. => K + 2
  | .execute s => sizeOf s
  | .executeAll body => sizeOf body
  | .repeatWhile .. => 0

/-- **The weight of an activity**: the room for calls that is left, and then what there is to do. -/
noncomputable def Activity.weight (K : Nat) (a : Activity) : Nat :=
  (a.machine.limit - a.machine.depth) * (K + 3) + a.task.weight K

/-- A task that is about statements without loops. -/
def Task.LoopFree : Task → Prop
  | .execute s => s.LoopFree
  | .executeAll body => Stmt.LoopFreeAll body
  | .repeatWhile .. => False
  | _ => True

section Weight

variable {K : Nat} {a b : Activity} {link : Link}

lemma Task.weight_lt_of_bindMethod {method : Method} {id : InstanceId} {m m₁ : Machine}
    {initializer : Callable} (h : Effect.bindMethod method id m = (.ok initializer, m₁))
    (arguments : List Value) (paren : Token) :
    (Task.call initializer arguments paren).weight K < K + 2 := by
  cases initializer with
  | builtin => exact Nat.succ_pos _
  | function => exact Nat.lt_succ_self _
  | cls c =>
    cases method <;> simp [Effect.bindMethod, Store.bindMethod] at h

/-- What an activity starts inside of the same call is smaller and has no loop. -/
lemma Activity.Starts.task_weight (h : a.Starts link b) (hlink : link ≠ .call)
    (hfree : a.task.LoopFree)
    (hfunction : ∀ {stamp closure arguments paren},
      a.task = .call (.function stamp closure) arguments paren → closure.decl.Bounded K) :
    b.task.LoopFree ∧ b.task.weight K < a.task.weight K := by
  cases h with
  | enter => exact absurd rfl hlink
  | @body n stamp closure =>
    obtain ⟨hdecl, hsize⟩ := hfunction rfl
    have hbody := closure.decl.sizeOf_body_lt
    exact ⟨closure.decl.loopFree_iff.mp hdecl, by simp only [Task.weight]; omega⟩
  | construct _ _ hbound => exact ⟨trivial, Task.weight_lt_of_bindMethod hbound _ _⟩
  | whileLoop | whileCondition | round | again => exact False.elim hfree
  | @thenBranch _ _ _ elseBranch =>
    cases elseBranch with
    | none => exact ⟨hfree, by simp only [Task.weight, Stmt.ifThen.sizeOf_spec]; omega⟩
    | some elseBranch =>
      exact ⟨hfree.1, by simp only [Task.weight, Stmt.ifThen.sizeOf_spec]; omega⟩
  | elseBranch =>
    simp only [Task.weight, Stmt.ifThen.sizeOf_spec, Option.some.sizeOf_spec]
    exact ⟨hfree.2, by omega⟩
  | head => exact ⟨hfree.1, by simp only [Task.weight, List.cons.sizeOf_spec]; omega⟩
  | tail => exact ⟨hfree.2, by simp only [Task.weight, List.cons.sizeOf_spec]; omega⟩
  | block => exact ⟨hfree, by simp [Task.weight]⟩
  | _ => exact ⟨trivial, by simp +arith [Task.weight]⟩

/-- **Each start makes the weight smaller.** -/
lemma Activity.Sound.weight_lt (ha : a.Sound (.loopless K)) (hfree : a.task.LoopFree)
    (h : a.Starts link b) : b.task.LoopFree ∧ b.weight K < a.weight K := by
  obtain ⟨-, hlimit, hdepth, hroom⟩ := h.machine
  by_cases hlink : link = .call
  · subst hlink
    have hroom := hroom rfl
    rw [if_pos rfl] at hdepth
    cases h with
    | @enter n c arguments paren m harity _ =>
      refine ⟨trivial, ?_⟩
      have hcall : (Task.call c arguments paren).weight K < K + 3 := by
        cases c <;> simp [Task.weight]
      have hleft : m.limit - m.depth = (m.limit - (m.depth + 1)) + 1 := by
        simp only at hroom
        omega
      simp only [Activity.weight, hleft, Nat.add_mul, Nat.one_mul]
      simp only [Task.weight] at hcall ⊢
      omega
  · rw [if_neg hlink, Nat.add_zero] at hdepth
    obtain ⟨T, -, htask⟩ := ha
    have hsmaller := h.task_weight (K := K) hlink hfree
      fun {stamp closure arguments paren} heq => by
      rw [heq] at htask
      cases htask.1 with
      | function _ hc => exact hc.function
    refine ⟨hsmaller.1, ?_⟩
    simp only [Activity.weight, hlimit, hdepth]
    omega

/-- **With fuel above its weight, an activity without loops does not use it up.** -/
lemma Activity.Sound.not_exhausts (ha : a.Sound (.loopless K)) (hfree : a.task.LoopFree)
    (hfuel : a.weight K < a.fuel) : ¬a.Exhausts := by
  refine Activity.not_exhausts_of_weight
    (P := fun a => a.Sound (.loopless K) ∧ a.task.LoopFree) ?_ ⟨ha, hfree⟩ hfuel
  intro a b link ha h
  obtain ⟨hfree, hlt⟩ := ha.1.weight_lt ha.2 h
  exact ⟨⟨ha.1.start h, hfree⟩, hlt⟩

end Weight

/-! ## Sessions without loops -/

namespace Session

/-- **The sessions that units of source lead to**, where a host may also set the limit between two
units, and read and write on the console. -/
inductive Hosted : Session → List String → Prop
  | start (input : List InputLine) (clock : Clock) : Hosted (Session.start input clock) []
  | run {s : Session} {sources : List String} (hs : Hosted s sources) (fuel : Nat)
      (source : String) (log : Log) : Hosted (s.run fuel source log).session (source :: sources)
  | console {s : Session} {sources : List String} (hs : Hosted s sources) (console : Console) :
      Hosted { s with machine := { s.machine with console := console } } sources
  | limit {s : Session} {sources : List String} (hs : Hosted s sources) (limit : Nat) :
      Hosted (s.setLimit limit) sources

/-- Between two units there are only functions without loops, within a bound. -/
structure Loopless (s : Session) (K : Nat) : Prop where
  like : ∃ T, s.machine.Like (.loopless K) T s.machine
  scope : s.machine.scope = globalScope

/-- A source without the words that start a loop. -/
def WithoutLoops (source : String) : Prop := ∀ t ∈ tokensOf source, t.startsLoop = false

section Accepted

variable {s : Session} {source : String} {log : Log} {K : Nat}

lemma loopFree_reading (h : (s.reading source).errors = []) (hsource : WithoutLoops source) :
    Stmt.LoopFreeAll (s.reading source).program := by
  refine (derives_reading h).loopFree fun t ht => hsource t ?_
  exact (List.takeWhile_prefix _).subset ht

lemma like_loopless_reading (K : Nat) : Stmt.LikeAll (.loopless K) [] (s.reading source).program
    (s.reading source).program := by
  have htokens : List.Forall₂ (Likeness.loopless K).Same (tokensOf source) (tokensOf source) :=
    List.forall₂_same.mpr fun t _ => ⟨rfl, rfl⟩
  obtain ⟨hlike, -, -⟩ := like_readProgram htokens (exists_eof_tokensOf source) (fun _ => rfl)
    fun _ => trivial
  exact hlike [] plain_nil

lemma admits_loopless (hfree : Stmt.LoopFreeAll (s.reading source).program)
    (hsize : sizeOf (s.reading source).program ≤ K) :
    ∀ stmt ∈ (s.reading source).program, globalScope.Admits (.loopless K) stmt := by
  refine fun stmt hstmt => ⟨fun _ _ _ => trivial, fun f hf => ?_⟩
  obtain ⟨hf, hle⟩ := Stmt.LoopFreeAll.makes _ hfree f (Stmt.mem_makesAll hstmt hf)
  exact ⟨hf, Nat.le_trans hle hsize⟩

end Accepted

namespace Loopless

variable {s : Session} {source : String} {log : Log} {K K' : Nat}

lemma start (input : List InputLine) (clock : Clock) : (Session.start input clock).Loopless 0 where
  like := by
    refine ⟨[.identity], like_initialStore fun _ => trivial, rfl, rfl, rfl, ?_, ?_, rfl, rfl⟩
    · exact fun href => by rw [href]
    · exact fun _ => trivial
  scope := rfl

lemma load (h : s.Loopless K) (hle : K ≤ K') (distances : Distances) (nextRef : RefId) :
    Loopless ⟨{ s.machine with distances := distances }, nextRef⟩ K' := by
  obtain ⟨T, hlike⟩ := h.like
  refine ⟨⟨T, hlike.load (Likeness.loopless_le hle) (fun _ _ => trivial) (fun href => ?_)
    fun _ => trivial⟩, h.scope⟩
  rw [href]

lemma console (h : s.Loopless K) (console : Console) :
    Loopless { s with machine := { s.machine with console := console } } K := by
  obtain ⟨T, hlike⟩ := h.like
  exact ⟨⟨T, { hlike with console := rfl }⟩, h.scope⟩

lemma limit (h : s.Loopless K) (limit : Nat) : (s.setLimit limit).Loopless K := by
  obtain ⟨T, hlike⟩ := h.like
  exact ⟨⟨T, { hlike with limit := rfl }⟩, h.scope⟩

/-- **A unit without loops leaves only functions without loops.** -/
lemma run (h : s.Loopless K) (hsource : WithoutLoops source) (fuel : Nat) (log : Log) :
    (s.run fuel source log).session.Loopless (max K (sizeOf (s.reading source).program)) := by
  have hle := Nat.le_max_left K (sizeOf (s.reading source).program)
  cases haccepts : s.accepts source log with
  | false =>
    obtain ⟨log', hrun⟩ := run_of_not_accepts haccepts fuel
    rw [hrun]
    rcases s.rejected_cases source log with heq | ⟨-, heq⟩
    · rw [heq]
      exact h.load hle s.machine.distances _
    · rw [heq]
      exact h.load hle _ _
  | true =>
    have hloaded := h.load hle (s.analysis source).distances (s.reading source).nextRef
    obtain ⟨T, hlike⟩ := hloaded.like
    have hfree := loopFree_reading (reading_of_accepts haccepts) hsource
    obtain ⟨T₁, -, -, hafter, hscope⟩ := agree_runProgram fuel (like_loopless_reading _)
      (.global hlike.store.opened) (admits_loopless hfree (Nat.le_max_right K _)) _ _ hlike
      hloaded.scope
    rw [run_of_accepts haccepts, machine_execute]
    exact ⟨⟨T₁, hafter⟩, hscope⟩

/-- **A program without loops is finished with enough fuel.** -/
lemma not_exhausted (h : (s.loaded source).Loopless K)
    (hfree : Stmt.LoopFreeAll (s.reading source).program)
    (hsize : sizeOf (s.reading source).program ≤ K) {fuel : Nat}
    (hfuel : s.machine.limit * (K + 3) + sizeOf (s.reading source).program < fuel) :
    (runProgram fuel (s.reading source).program (s.loaded source).machine).1 ≠ .exhausted := by
  obtain ⟨T, hlike⟩ := h.like
  intro hexhausted
  obtain ⟨before, stmt, rest, m₁, heq, hbefore, hstmt⟩ := exists_exhausted hexhausted
  have hmem : stmt ∈ (s.reading source).program := by
    rw [heq]
    exact List.mem_append_right _ List.mem_cons_self
  have hsound := LoxLang.Underway.sound hlike h.scope (like_loopless_reading _)
    (admits_loopless hfree hsize) ⟨before, stmt, rest, m₁, heq, hbefore, .here⟩
  refine hsound.not_exhausts (Stmt.loopFree_of_mem hfree hmem) ?_ hstmt
  have hlimit : m₁.limit = s.machine.limit :=
    ((restores_runProgram fuel before).of_run hbefore).limit
  have hless := List.sizeOf_lt_of_mem hmem
  have hroom : (m₁.limit - m₁.depth) * (K + 3) ≤ s.machine.limit * (K + 3) := by
    rw [hlimit]
    exact Nat.mul_le_mul_right _ (Nat.sub_le _ _)
  simp only [Activity.weight, Task.weight]
  omega

end Loopless

section Terminates

variable {s : Session} {sources : List String} {source : String}

lemma Hosted.loopless (hs : s.Hosted sources) (hsources : ∀ source ∈ sources, WithoutLoops source) :
    ∃ K, s.Loopless K := by
  induction hs with
  | start input clock => exact ⟨0, .start input clock⟩
  | run _ fuel source log ih =>
    rw [List.forall_mem_cons] at hsources
    obtain ⟨K, hK⟩ := ih hsources.2
    exact ⟨_, hK.run hsources.1 fuel log⟩
  | console _ console ih =>
    obtain ⟨K, hK⟩ := ih hsources
    exact ⟨K, hK.console console⟩
  | limit _ limit ih =>
    obtain ⟨K, hK⟩ := ih hsources
    exact ⟨K, hK.limit limit⟩

/-- A unit that is not accepted needs no fuel. -/
lemma run_fuel_of_not_accepts {log : Log} (h : s.accepts source log = false) (fuel fuel' : Nat) :
    s.run fuel source log = s.run fuel' source log := by
  rw [run_eq, run_eq]
  simp only
  split
  · rfl
  · next hread =>
    have hresolved := hasStatic_of_not_accepts h hread
    rw [if_pos hresolved, if_pos hresolved]

/-- An accepted unit whose program is finished ends with a status or a fault. -/
lemma ending_execute {fuel : Nat} {program : List Stmt} {log : Log}
    (h : (runProgram fuel program s.machine).1 ≠ .exhausted) :
    (∃ status, (s.execute fuel program log).ending = .finished status) ∨
      ∃ f, (s.execute fuel program log).ending = .fault f := by
  rcases hrun : runProgram fuel program s.machine with ⟨outcome, m⟩
  rw [hrun] at h
  simp only [execute, hrun]
  cases outcome with
  | ok | error => exact .inl ⟨_, rfl⟩
  | fault f => exact .inr ⟨f, rfl⟩
  | exhausted => exact absurd rfl h

/-- **A unit that is finished ends in the same way with more fuel.** -/
lemma run_of_le {fuel fuel' : Nat} {log : Log} (hle : fuel ≤ fuel')
    (h : (s.run fuel source log).ending ≠ .exhausted) :
    s.run fuel' source log = s.run fuel source log := by
  cases haccepts : s.accepts source log with
  | false => exact run_fuel_of_not_accepts haccepts fuel' fuel
  | true =>
    rw [run_of_accepts haccepts] at h ⊢
    rw [run_of_accepts haccepts]
    have hdone : (runProgram fuel (s.reading source).program (s.loaded source).machine).1 ≠
        .exhausted := by
      intro hexhausted
      rcases hrun : runProgram fuel (s.reading source).program (s.loaded source).machine with
        ⟨outcome, m⟩
      rw [hrun] at hexhausted
      simp only at hexhausted
      subst hexhausted
      simp only [execute, hrun] at h
      exact h rfl
    simp only [execute, runProgram_of_le hle hdone]

/-- **Programs without loops end.**  In a session that was led by sources without loops to where it
is, whatever its limit and its input are, a further source without loops is finished with enough
fuel: it ends with a status or a fault, and more fuel changes nothing. -/
theorem Hosted.terminates (hs : s.Hosted sources)
    (hsources : ∀ earlier ∈ sources, WithoutLoops earlier) (hsource : WithoutLoops source) :
    ∃ enough, ∀ fuel, enough ≤ fuel → ∀ log,
      ((∃ status, (s.run fuel source log).ending = .finished status) ∨
        ∃ f, (s.run fuel source log).ending = .fault f) ∧
      s.run fuel source log = s.run enough source log := by
  obtain ⟨K, hK⟩ := hs.loopless hsources
  obtain ⟨bound, hbound⟩ : ∃ bound, bound = max K (sizeOf (s.reading source).program) := ⟨_, rfl⟩
  refine ⟨s.machine.limit * (bound + 3) + sizeOf (s.reading source).program + 1, ?_⟩
  intro fuel hfuel log
  cases haccepts : s.accepts source log with
  | false =>
    obtain ⟨log', hrun⟩ := run_of_not_accepts haccepts fuel
    refine ⟨.inl ⟨.syntaxError, ?_⟩, run_fuel_of_not_accepts haccepts _ _⟩
    rw [hrun]
  | true =>
    have hfree := loopFree_reading (reading_of_accepts haccepts) hsource
    have hloaded : (s.loaded source).Loopless bound := hK.load (by omega) _ _
    have hdone := hloaded.not_exhausted hfree (by omega) (Nat.lt_succ_self _)
    have hsame := runProgram_of_le hfuel hdone
    rw [run_of_accepts haccepts, run_of_accepts haccepts]
    constructor
    · apply ending_execute
      rwa [hsame]
    · simp only [execute, hsame]

/-- A function that calls itself without end. -/
theorem terminates_endless_recursion :
    let s := (Session.start [] (.startingAt 0)).setLimit 7
    let source := "fun f() \x7b f(); \x7d f();"
    ∃ enough, ∀ fuel, enough ≤ fuel → ∀ log,
      ((∃ status, (s.run fuel source log).ending = .finished status) ∨
        ∃ f, (s.run fuel source log).ending = .fault f) ∧
      s.run fuel source log = s.run enough source log := by
  intro s source
  have hs : s.Hosted [] := .limit (.start [] (.startingAt 0)) 7
  have hsource : WithoutLoops source := by
    unfold WithoutLoops
    decide +kernel
  exact hs.terminates (List.forall_mem_nil _) hsource

end Terminates

end Session

end LoxLang
