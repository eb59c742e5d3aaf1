import LoxLang.Proofs.Machine.Restoration
import LoxLang.Proofs.Machine.Simulation
import LoxLang.Proofs.Scope.Containment
import LoxLang.Proofs.Session.Stages
import LoxLang.Proofs.Syntax.Correspondence

/-!
# Reachable sessions

The sessions that units of source lead to, whatever the units are and however they end.  Between two
units the machine is back in the scope of the globals, and everything in its store comes from the
units before: the tokens of its closures are tokens of their sources, the reference numbers are
among those that were given away, and `break` and `return` stand where they may (`Session.Settled`).

A run is followed with the relation between machines that are alike, applied to a machine and
itself.
-/

namespace LoxLang

/-- Is it a token of one of the sources? -/
def IsTokenOf (sources : List String) (t : Token) : Prop := ∃ source ∈ sources, t ∈ tokensOf source

lemma isTokenOf_first {source : String} (sources : List String) {t : Token}
    (ht : t ∈ tokensOf source) : IsTokenOf (source :: sources) t :=
  ⟨source, List.mem_cons_self, ht⟩

lemma IsTokenOf.cons {sources : List String} {t : Token} (h : IsTokenOf sources t)
    (source : String) : IsTokenOf (source :: sources) t := by
  obtain ⟨earlier, hearlier, ht⟩ := h
  exact ⟨earlier, List.mem_cons_of_mem _ hearlier, ht⟩

/-- **Nothing is replaced.**  The tokens and the reference numbers have given properties. -/
def Likeness.kept (P : Token → Prop) (S : RefId → Prop) (global : String → Prop) : Likeness where
  token t t' := t' = t ∧ P t
  ref ref ref' := ref' = ref ∧ S ref
  distance _ _ := True
  renames π := π = .identity
  function := fun d isInitializer => d.Contained isInitializer
  global := global
  kind h := by rw [h.1]
  identity := rfl
  inner := @FunDecl.contained_makes

lemma Likeness.kept_le {P P' : Token → Prop} {S S' : RefId → Prop} {global global' : String → Prop}
    (hP : ∀ t, P t → P' t) (hS : ∀ ref, S ref → S' ref) :
    (kept P S global).Le (fun _ => True) (kept P' S' global') where
  token h := ⟨h.1, hP _ h.2⟩
  ref _ h := ⟨h.1, hS _ h.2⟩
  distance _ := trivial
  renames := id
  function := id

/-- Machines stay alike with other tables, so long as the tables agree where they have to. -/
lemma Machine.Like.load {ρ ρ' : Likeness} {T : List Renaming} {m m' : Machine} (h : m.Like ρ T m')
    (hρ : ρ.Le (fun _ => True) ρ')
    (hglobal : ∀ name, (m.store.frame globalFrame).contains name = true → ρ'.global name)
    {d d' : Distances} (hd : ∀ {ref ref'}, ρ'.ref ref ref' → d'.find? ref' = d.find? ref)
    (hdistance : ∀ {ref ref'}, ρ'.ref ref ref' → ρ'.distance ref (d.find? ref)) :
    Machine.Like ρ' T { m with distances := d } { m' with distances := d' } :=
  ⟨h.store.mono hρ hglobal, h.scope, h.depth, h.limit, hd, hdistance, h.console, h.clock⟩

/-- The first of two machines that are alike gets a table that agrees with the other one's. -/
lemma Machine.Like.loadFirst {ρ ρ' : Likeness} {T : List Renaming} {m m' : Machine}
    (h : m.Like ρ T m') (hρ : ρ.Le (fun _ => True) ρ')
    (hglobal : ∀ name, (m.store.frame globalFrame).contains name = true → ρ'.global name)
    {d : Distances} (hd : ∀ {ref ref'}, ρ'.ref ref ref' → m'.distances.find? ref' = d.find? ref)
    (hdistance : ∀ {ref ref'}, ρ'.ref ref ref' → ρ'.distance ref (d.find? ref)) :
    Machine.Like ρ' T { m with distances := d } m' := h.load hρ hglobal hd hdistance

/-- What the globals are called can be forgotten. -/
lemma Machine.Like.forgetGlobals {P : Token → Prop} {S : RefId → Prop} {global : String → Prop}
    {T : List Renaming} {m : Machine} (h : m.Like (.kept P S global) T m) :
    m.Like (.kept P S fun _ => True) T m :=
  h.load (Likeness.kept_le (fun _ => id) fun _ => id) (fun _ _ => trivial)
    (fun href => by rw [href.1]) fun _ => trivial

/-! ## The machine that every session starts with -/

section Initial

variable {ρ : Likeness}

lemma like_builtinClass (T : List Renaming) (stamp : Stamp) (name : String)
    (methods : List Builtin) :
    (builtinClass stamp name methods).Like ρ T (builtinClass stamp name methods) := by
  refine .cons ⟨rfl, rfl, Bindings.Like.empty.insertAll ?_⟩ .nil
  exact List.forall₂_same.mpr fun entry hentry => by
    obtain ⟨b, -, rfl⟩ := List.mem_map.mp hentry
    exact ⟨rfl, .builtin b⟩

lemma like_initialStore (hglobal : ∀ name, ρ.global name) :
    Store.initial.Like ρ [.identity] Store.initial where
  size := rfl
  size' := rfl
  frame {id π} hid := by
    obtain ⟨hlt, hπ⟩ := List.getElem?_eq_some_iff.mp hid
    obtain rfl : id = 0 := Nat.lt_one_iff.mp hlt
    subst hπ
    refine Bindings.Like.empty.insertAll ?_
    exact .cons ⟨rfl, .callable (.builtin ..)⟩
      (.cons ⟨rfl, .callable (.cls (like_builtinClass ..))⟩
        (.cons ⟨rfl, .callable (.cls (like_builtinClass ..))⟩ .nil))
  instances := .empty
  nextStamp := rfl
  opened := rfl
  renames π hπ := List.mem_singleton.mp hπ ▸ ρ.identity
  global name _ := hglobal name

end Initial

namespace Session

/-- **The sessions that units of source lead to**, with the sources of the units.  A host may read
and write on the console between two units, and set how deep calls may nest. -/
inductive Reachable : Session → List String → Prop
  | start (input : List InputLine) (clock : Clock) (limit : Nat) :
      Reachable ((Session.start input clock).setLimit limit) []
  | run {s : Session} {sources : List String} (hs : Reachable s sources) (fuel : Nat)
      (source : String) (log : Log) : Reachable (s.run fuel source log).session (source :: sources)
  | console {s : Session} {sources : List String} (hs : Reachable s sources) (console : Console) :
      Reachable { s with machine := { s.machine with console := console } } sources
  | limit {s : Session} {sources : List String} (hs : Reachable s sources) (limit : Nat) :
      Reachable (s.setLimit limit) sources

/-- What holds between two units. -/
structure Settled (s : Session) (sources : List String) : Prop where
  like : ∃ T, s.machine.Like (.kept (IsTokenOf sources) (· < s.nextRef) fun _ => True) T s.machine
  scope : s.machine.scope = globalScope
  /-- Nothing is recorded for numbers that were not given away. -/
  fresh : ∀ ref : Nat, s.nextRef ≤ ref → s.machine.distances.find? ref = none

/-! ## Units that are accepted -/

section Accepted

variable {s : Session} {source : String} {log : Log}

lemma lexicalLog_of_accepts (h : s.accepts source log = true) : lexicalLog source = [] := by
  simp only [accepts, Bool.and_eq_true, List.isEmpty_iff] at h
  exact h.1.1.2

lemma accepts_of_ending {fuel : Nat} (h : (s.run fuel source log).ending ≠ .finished .syntaxError) :
    s.accepts source log = true := by
  by_contra hnot
  obtain ⟨log', hrun⟩ := run_of_not_accepts (Bool.not_eq_true _ ▸ hnot) fuel
  rw [hrun] at h
  exact h rfl

/-- The program of a source is like itself. -/
lemma like_reading (h : (s.reading source).errors = []) {P : Token → Prop}
    (hP : ∀ t ∈ tokensOf source, P t) (global : String → Prop) :
    Stmt.LikeAll (.kept P (· < (s.reading source).nextRef) global) []
      (s.reading source).program (s.reading source).program := by
  have htokens : List.Forall₂ (Likeness.kept P (fun _ => True) global).Same (tokensOf source)
      (tokensOf source) := List.forall₂_same.mpr fun t ht => ⟨⟨rfl, hP t ht⟩, rfl⟩
  obtain ⟨hlike, -, -⟩ := like_readProgram htokens (exists_eof_tokensOf source)
    (fun _ => ⟨rfl, trivial⟩) fun _ => trivial
  have hbounds : Reference.AllIn (· < (s.reading source).nextRef)
      (Stmt.allReferences (s.reading source).program) :=
    fun r hr => ((derives_reading h).numbered.bounds r hr).2
  have hle : (Likeness.kept P (fun _ => True) global).Le (· < (s.reading source).nextRef)
      (.kept P (· < (s.reading source).nextRef) global) :=
    ⟨id, fun hlt href => ⟨href.1, hlt⟩, fun _ => trivial, id, id⟩
  exact Stmt.LikeAll.mono hle _ hbounds (hlike [] plain_nil)

/-- The names that the globals can have once the program of a source was run. -/
def mayBind (s : Session) (source : String) (name : String) : Prop :=
  s.isGlobal name = true ∨ name ∈ (s.analysis source).topLevel

/-- In the scope of the globals a program binds what its analysis knows to be at top level. -/
lemma admits_mayBind (ρ : Likeness) (hglobal : ∀ name, s.mayBind source name → ρ.global name)
    (hfunction : ∀ {d isInitializer}, FunDecl.Contained isInitializer d →
      ρ.function d isInitializer)
    (hquiet : (s.analysis source).errors = []) :
    ∀ stmt ∈ (s.reading source).program, Scope.Admits ρ globalScope stmt := by
  have hcontained := Stmt.containedAll_of_quiet s.isGlobal .topLevel (s.reading source).program _
    hquiet
  intro stmt hstmt
  refine ⟨fun _ name hname => hglobal name (.inr ?_), fun f hf => hfunction ?_⟩
  · exact Stmt.mem_topLevel_analyseAll s.isGlobal .topLevel _ rfl stmt hstmt name hname
  · exact hcontained.makes _ f (Stmt.mem_makesAll hstmt hf)

end Accepted

namespace Settled

variable {s : Session} {sources : List String} {source : String} {log : Log}

/-- The machine with the program of an accepted source loaded, and with another table that agrees
with its own on the references there are so far. -/
lemma like_loaded (h : s.Settled sources) (haccepts : s.accepts source log = true)
    {d : Distances}
    (hd : ∀ ref, ref < (s.reading source).nextRef →
      d.find? ref = (s.analysis source).distances.find? ref) :
    ∃ T, (s.loaded source).machine.Like (.kept (IsTokenOf (source :: sources))
      (· < (s.reading source).nextRef) (s.mayBind source)) T { s.machine with distances := d } := by
  have hle : s.nextRef ≤ (s.reading source).nextRef :=
    (derives_reading (reading_of_accepts haccepts)).ref_le
  obtain ⟨T, hlike⟩ := h.like
  refine ⟨T, hlike.load (Likeness.kept_le (fun _ ht => ht.cons source) fun _ hlt => ?_)
    (fun _ => .inl) (fun href => ?_) fun _ => trivial⟩
  · exact Nat.lt_of_lt_of_le hlt hle
  · rw [href.1]
    exact hd _ href.2

/-- **The program of an accepted source, run with its own table of distances and with another one
that agrees with it.** -/
lemma agree_load (h : s.Settled sources) (haccepts : s.accepts source log = true) (fuel : Nat)
    {d : Distances}
    (hd : ∀ ref, ref < (s.reading source).nextRef →
      d.find? ref = (s.analysis source).distances.find? ref) :
    let ρ := Likeness.kept (IsTokenOf (source :: sources)) (· < (s.reading source).nextRef)
      (s.mayBind source)
    let own := runProgram fuel (s.reading source).program (s.loaded source).machine
    let other := runProgram fuel (s.reading source).program { s.machine with distances := d }
    ∃ T, own.1.Like ρ Eq other.1 ∧ own.2.Like ρ T other.2 := by
  intro ρ own other
  obtain ⟨T, hmachine⟩ := h.like_loaded haccepts hd
  have hprogram := like_reading (reading_of_accepts haccepts)
    (fun _ ht => isTokenOf_first sources ht) (s.mayBind source)
  have hadmits := admits_mayBind ρ (fun _ => id) id (analysis_of_accepts haccepts)
  have hagree := agree_runProgram fuel hprogram (.global hmachine.store.opened) hadmits
  obtain ⟨T₁, -, houtcome, hafter, -⟩ := hagree _ _ hmachine h.scope
  exact ⟨T₁, houtcome, hafter⟩

lemma start (input : List InputLine) (clock : Clock) (limit : Nat) :
    ((Session.start input clock).setLimit limit).Settled [] where
  like := by
    refine ⟨[.identity], like_initialStore fun _ => trivial, rfl, rfl, rfl, ?_, ?_, rfl, rfl⟩
    · exact fun href => by rw [href.1]
    · exact fun _ => trivial
  scope := rfl
  fresh _ _ := rfl

/-- An analysis records nothing for numbers that were not given away. -/
lemma fresh_analysis (h : s.Settled sources) (hread : (s.reading source).errors = []) (ref : Nat)
    (href : (s.reading source).nextRef ≤ ref) :
    (s.analysis source).distances.find? ref = none := by
  have hle : s.nextRef ≤ (s.reading source).nextRef := (derives_reading hread).ref_le
  exact ((derives_reading hread).find?_analyseProgram (.inr href)).trans
    (h.fresh ref (Nat.le_trans hle href))

/-- A unit that is not accepted leaves everything in the store as it is. -/
lemma rejected (h : s.Settled sources) (source : String) (log : Log) :
    (s.rejected source log).Settled (source :: sources) := by
  have hle : s.nextRef ≤ (s.reading source).nextRef := le_nextRef_readProgram _ _
  obtain ⟨T, hlike⟩ := h.like
  have hlater : ∀ d : Distances, Machine.Like (.kept (IsTokenOf (source :: sources))
      (· < (s.reading source).nextRef) fun _ => True) T { s.machine with distances := d }
      { s.machine with distances := d } := by
    intro d
    refine hlike.load (Likeness.kept_le (fun _ ht => ht.cons source) fun _ hlt => ?_)
      (fun _ _ => trivial) (fun href => ?_) fun _ => trivial
    · exact Nat.lt_of_lt_of_le hlt hle
    · rw [href.1]
  rcases s.rejected_cases source log with heq | ⟨hread, heq⟩
  · rw [heq]
    exact ⟨⟨T, hlater s.machine.distances⟩, h.scope,
      fun ref href => h.fresh ref (Nat.le_trans hle href)⟩
  · rw [heq]
    exact ⟨⟨T, hlater (s.analysis source).distances⟩, h.scope, h.fresh_analysis hread⟩

/-- **Every unit leaves the session settled.** -/
lemma run (h : s.Settled sources) (fuel : Nat) (source : String) (log : Log) :
    (s.run fuel source log).session.Settled (source :: sources) := by
  cases haccepts : s.accepts source log with
  | false =>
    obtain ⟨log', hrun⟩ := run_of_not_accepts haccepts fuel
    rw [hrun]
    exact h.rejected source log
  | true =>
    have hloaded : { s.machine with distances := (s.analysis source).distances } =
        (s.loaded source).machine := rfl
    obtain ⟨T, -, hlike⟩ := h.agree_load haccepts fuel fun _ _ => rfl
    rw [hloaded] at hlike
    have hrestored := restores_runProgram fuel (s.reading source).program (s.loaded source).machine
    rw [run_of_accepts haccepts, machine_execute]
    refine ⟨⟨T, hlike.forgetGlobals⟩, hrestored.scope.trans h.scope, fun ref href => ?_⟩
    have hfresh := h.fresh_analysis (reading_of_accepts haccepts) ref href
    have hdistances := hrestored.distances
    simp only
    rw [hdistances]
    exact hfresh

lemma console (h : s.Settled sources) (console : Console) :
    Settled { s with machine := { s.machine with console := console } } sources := by
  obtain ⟨T, hlike⟩ := h.like
  exact ⟨⟨T, { hlike with console := rfl }⟩, h.scope, h.fresh⟩

lemma setLimit (h : s.Settled sources) (limit : Nat) : (s.setLimit limit).Settled sources := by
  obtain ⟨T, hlike⟩ := h.like
  exact ⟨⟨T, { hlike with limit := rfl }⟩, h.scope, h.fresh⟩

end Settled

lemma Reachable.settled {s : Session} {sources : List String} (h : s.Reachable sources) :
    s.Settled sources := by
  induction h with
  | start input clock limit => exact .start input clock limit
  | run _ fuel source log ih => exact ih.run fuel source log
  | console _ console ih => exact ih.console console
  | limit _ limit ih => exact ih.setLimit limit

end Session

end LoxLang
