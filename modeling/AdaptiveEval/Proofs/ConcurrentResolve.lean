import AdaptiveEval.Proofs.NameFreshness
import Mathlib.Data.List.Infix

/-!
# Concurrent resolution

Resolvers share a registry, caches and sites. Each of them goes through the atomic steps of a
resolve, and the steps of all resolvers interleave with mapping changes in any order. The main
statement follows a resolve from the moment at which it reads the epoch to its return: the id that
it returns was looked up in the registry after every mapping change that precedes the resolve.
-/

namespace AdaptiveEval

open Chain

namespace ConcurrentResolve

structure Call where
  cache : Nat
  site : Nat
  name : String

inductive Phase where
  | idle
  | opened (call : Call) (epoch : Nat)
  | synced (call : Call) (generation : Nat)
  | missed (call : Call) (generation : Nat)
  | fetched (call : Call) (generation : Nat) (id : Option Int64)
  | returned (id : Option Int64)

structure State extends Names where
  phases : Nat → Phase

/-- A resolver starts by reading the epoch. One that starts again drops what it was doing. -/
inductive Event where
  | map (name : String) (id : Int64)
  | start (resolver : Nat) (call : Call)
  | advance (resolver : Nat)

namespace State

def ofLimit (limit : Nat) : State :=
  { Names.ofLimit limit with phases := fun _ => .idle }

def cacheOf (state : State) (call : Call) : NameCache :=
  state.caches call.cache

def siteOf (state : State) (call : Call) : Head :=
  state.sites call.site

def setCache (state : State) (call : Call) (cache : NameCache) : State :=
  { state with caches := Function.update state.caches call.cache cache }

def setSite (state : State) (call : Call) (site : Head) : State :=
  { state with sites := Function.update state.sites call.site site }

def setPhase (state : State) (resolver : Nat) (phase : Phase) : State :=
  { state with phases := Function.update state.phases resolver phase }

def advance (state : State) (resolver : Nat) : State :=
  match state.phases resolver with
  | .idle => state
  | .opened call epoch =>
      let cache := (state.cacheOf call).sync epoch
      (state.setCache call cache).setPhase resolver (.synced call cache.generation)
  | .synced call generation =>
      let site := state.siteOf call
      match (state.cacheOf call).lookup site (fun key => key == call.name) with
      | some id => (state.setSite call (site.record true)).setPhase resolver (.returned id)
      | none =>
          (state.setSite call (site.record false)).setPhase resolver (.missed call generation)
  | .missed call generation =>
      state.setPhase resolver (.fetched call generation (state.registry.lookup call.name))
  | .fetched call generation id =>
      match (state.cacheOf call).tryAppend (state.siteOf call) generation call.name id with
      | (_, cache, site) =>
          ((state.setCache call cache).setSite call site).setPhase resolver (.returned id)
  | .returned _ => state

def step (state : State) : Event → State
  | .map name id => { state with registry := state.registry.map name id }
  | .start resolver call => state.setPhase resolver (.opened call state.registry.epoch)
  | .advance resolver => state.advance resolver

def run (state : State) (events : List Event) : State :=
  events.foldl step state

@[simp]
theorem run_append (state : State) (first second : List Event) :
    state.run (first ++ second) = (state.run first).run second :=
  List.foldl_append

theorem registry_advance (state : State) (resolver : Nat) :
    (state.advance resolver).registry = state.registry := by
  unfold advance
  split <;> try rfl
  dsimp only
  split <;> rfl

theorem phases_advance_of_ne (state : State) {resolver other : Nat} (hne : other ≠ resolver) :
    (state.advance resolver).phases other = state.phases other := by
  unfold advance
  split
  · rfl
  · simp [setPhase, setCache, hne]
  · dsimp only
    split <;> simp [setPhase, setSite, hne]
  · simp [setPhase, hne]
  · simp [setPhase, setSite, setCache, hne]
  · rfl

theorem run_snoc (state : State) (events : List Event) (event : Event) :
    state.run (events ++ [event]) = (state.run events).step event :=
  run_append state events [event]

/-- A cache moves only by the synchronization and by the append of a resolver. -/
theorem caches_advance_cases (state : State) (resolver cache : Nat) :
    (state.advance resolver).caches cache = state.caches cache ∨
    (∃ call epoch, state.phases resolver = .opened call epoch ∧
      (state.advance resolver).caches cache = (state.caches cache).sync epoch) ∨
    ∃ call generation id, state.phases resolver = .fetched call generation id ∧
      (state.advance resolver).caches cache =
        ((state.caches cache).tryAppend (state.siteOf call) generation call.name id).2.1 := by
  unfold advance
  split
  · exact Or.inl rfl
  · rename_i call epoch hphase
    by_cases heq : cache = call.cache
    · subst heq
      exact Or.inr (Or.inl ⟨call, epoch, hphase, by simp [setPhase, setCache, cacheOf]⟩)
    · exact Or.inl (by simp [setPhase, setCache, heq])
  · dsimp only
    split <;> exact Or.inl rfl
  · exact Or.inl rfl
  · rename_i call generation id hphase
    by_cases heq : cache = call.cache
    · subst heq
      refine Or.inr (Or.inr ⟨call, generation, id, hphase, ?_⟩)
      simp [setPhase, setSite, setCache, cacheOf]
    · exact Or.inl (by simp [setPhase, setSite, setCache, heq])
  · exact Or.inl rfl

theorem generation_le_generation_advance (state : State) (resolver cache : Nat) :
    (state.caches cache).generation ≤ ((state.advance resolver).caches cache).generation := by
  obtain hsame | ⟨_, _, _, hsync⟩ | ⟨_, _, _, _, happend⟩ :=
    state.caches_advance_cases resolver cache
  · rw [hsame]
  · rw [hsync, Arena.generation_sync]
    exact Nat.le_max_left _ _
  · rw [happend, Arena.generation_tryAppend]

theorem generation_le_generation_step (state : State) (event : Event) (cache : Nat) :
    (state.caches cache).generation ≤ ((state.step event).caches cache).generation := by
  cases event with
  | map name id => exact Nat.le_refl _
  | start resolver call => exact Nat.le_refl _
  | advance resolver => exact state.generation_le_generation_advance resolver cache

theorem epoch_le_epoch_run (state : State) (events : List Event) :
    state.registry.epoch ≤ (state.run events).registry.epoch := by
  induction events generalizing state with
  | nil => exact Nat.le_refl _
  | cons event rest ih =>
      refine Nat.le_trans ?_ (ih (state.step event))
      cases event with
      | map name id => exact Nat.le_succ _
      | start resolver call => exact Nat.le_refl _
      | advance resolver =>
          change _ ≤ (state.advance resolver).registry.epoch
          rw [registry_advance]

/-- An id read at the end of a run was mapped before the run or during it. -/
theorem lookup_run_cases (state : State) (events : List Event) (name : String) :
    (state.run events).registry.lookup name = state.registry.lookup name ∨
      ∃ id, .map name id ∈ events ∧ (state.run events).registry.lookup name = some id := by
  induction events generalizing state with
  | nil => exact Or.inl rfl
  | cons event rest ih =>
      obtain hsame | ⟨id, hmem, hid⟩ := ih (state.step event)
      · cases event with
        | map mapped id =>
            have hlookup : (state.run (.map mapped id :: rest)).registry.lookup name =
                (state.registry.map mapped id).lookup name := hsame
            rw [hlookup, Registry.lookup_map]
            split
            · rename_i heq
              subst heq
              exact Or.inr ⟨id, List.mem_cons_self, rfl⟩
            · exact Or.inl rfl
        | start resolver call => exact Or.inl hsame
        | advance resolver =>
            refine Or.inl (hsame.trans ?_)
            change (state.advance resolver).registry.lookup name = _
            rw [registry_advance]
      · exact Or.inr ⟨id, List.mem_cons_of_mem _ hmem, hid⟩

/-- A run that leaves the epoch where it is contains no mapping change. -/
theorem registry_run_of_epoch_eq (state : State) (events : List Event)
    (hepoch : (state.run events).registry.epoch ≤ state.registry.epoch) :
    (state.run events).registry = state.registry := by
  induction events generalizing state with
  | nil => rfl
  | cons event rest ih =>
      have hrest := epoch_le_epoch_run (state.step event) rest
      change ((state.step event).run rest).registry = _
      cases event with
      | map name id =>
          have hadvanced : state.registry.epoch + 1 ≤ state.registry.epoch :=
            Nat.le_trans hrest hepoch
          omega
      | start resolver call => exact ih (state.step (.start resolver call)) hepoch
      | advance resolver =>
          have hsame : (state.step (.advance resolver)).registry = state.registry :=
            registry_advance state resolver
          rw [ih (state.step (.advance resolver)) (by rw [hsame]; exact hepoch), hsame]

end State

/-- The atomic steps of a resolver that nobody interrupts make up a resolve. -/
theorem run_uninterrupted (state : State) (resolver : Nat) (call : Call) :
    let after := state.run (.start resolver call :: List.replicate 4 (.advance resolver))
    let resolved := state.registry.resolve (state.cacheOf call) (state.siteOf call) call.name
    after.phases resolver = .returned resolved.1 ∧ after.cacheOf call = resolved.2.1 ∧
      after.siteOf call = resolved.2.2 := by
  cases hfound : ((state.cacheOf call).sync state.registry.epoch).lookup (state.siteOf call)
      (fun key => key == call.name) with
  | some id =>
      simp_all [State.run, State.step, State.advance, State.setPhase, State.setCache,
        State.setSite, State.cacheOf, State.siteOf, Registry.resolve]
  | none =>
      simp_all [State.run, State.step, State.advance, State.setPhase, State.setCache,
        State.setSite, State.cacheOf, State.siteOf, Registry.resolve]

/-- At some point of the run a resolver looked the name up in the registry, found the id, and the
epoch was not older than the given one. -/
def Fetched (initial : State) (events : List Event) (name : String) (id : Option Int64)
    (epoch : Nat) : Prop :=
  ∃ earlier later resolver call generation,
    events = earlier ++ .advance resolver :: later ∧
    (initial.run earlier).phases resolver = .missed call generation ∧
    call.name = name ∧
    (initial.run earlier).registry.lookup name = id ∧
    epoch ≤ (initial.run earlier).registry.epoch

namespace Fetched

variable {initial : State} {events : List Event} {name : String} {id : Option Int64} {epoch : Nat}

theorem snoc (hfetched : Fetched initial events name id epoch) (event : Event) :
    Fetched initial (events ++ [event]) name id epoch := by
  obtain ⟨earlier, later, resolver, call, generation, rfl, hrest⟩ := hfetched
  exact ⟨earlier, later ++ [event], resolver, call, generation, by simp, hrest⟩

theorem anti (hfetched : Fetched initial events name id epoch) {older : Nat} (hle : older ≤ epoch) :
    Fetched initial events name id older := by
  obtain ⟨earlier, later, resolver, call, generation, hsplit, hphase, hname, hid, hepoch⟩ := hfetched
  exact ⟨earlier, later, resolver, call, generation, hsplit, hphase, hname, hid,
    Nat.le_trans hle hepoch⟩

end Fetched

def PhaseSound (initial : State) (events : List Event) : Phase → Prop
  | .idle => True
  | .opened _ epoch => epoch ≤ (initial.run events).registry.epoch
  | .synced call generation => generation ≤ ((initial.run events).cacheOf call).generation
  | .missed _ generation => generation ≤ (initial.run events).registry.epoch
  | .fetched call generation id => Fetched initial events call.name id generation
  | .returned _ => True

/-- No cache is ahead of the registry, and whatever a cache holds was looked up no earlier than its
generation. -/
structure Sound (initial : State) (events : List Event) : Prop where
  behind : ∀ cache,
    ((initial.run events).caches cache).generation ≤ (initial.run events).registry.epoch
  stored : ∀ cache, ∀ entry ∈ ((initial.run events).caches cache).entries,
    Fetched initial events entry.key entry.value ((initial.run events).caches cache).generation
  phases : ∀ resolver, PhaseSound initial events ((initial.run events).phases resolver)

theorem sound_nil (limit : Nat) : Sound (.ofLimit limit) [] where
  behind := fun _ => Nat.le_refl _
  stored := by
    intro cache entry hmem
    simp [State.run, State.ofLimit, Names.ofLimit, Registry.freshCache, Arena.ofLimit] at hmem
  phases := fun _ => trivial

section Steps

variable {initial : State} {events : List Event}

theorem PhaseSound.snoc {phase : Phase} (hphase : PhaseSound initial events phase) (event : Event) :
    PhaseSound initial (events ++ [event]) phase := by
  have hepoch : (initial.run events).registry.epoch ≤
      (initial.run (events ++ [event])).registry.epoch := by
    rw [State.run_append]
    exact State.epoch_le_epoch_run _ _
  cases phase with
  | idle => trivial
  | opened call epoch => exact Nat.le_trans hphase hepoch
  | synced call generation =>
      refine Nat.le_trans hphase ?_
      rw [State.run_snoc]
      exact State.generation_le_generation_step _ event call.cache
  | missed call generation => exact Nat.le_trans hphase hepoch
  | fetched call generation id => exact Fetched.snoc hphase event
  | returned id => trivial

theorem Sound.phase_advance (hsound : Sound initial events) (resolver : Nat) :
    PhaseSound initial (events ++ [.advance resolver])
      (((initial.run events).advance resolver).phases resolver) := by
  have hbefore := hsound.phases resolver
  unfold State.advance
  split <;> rename_i hphase <;> rw [hphase] at hbefore
  · rw [hphase]
    trivial
  · rename_i call epoch
    simp only [State.setPhase, Function.update_self, PhaseSound]
    rw [State.run_snoc]
    simp [State.step, State.advance, hphase, State.setPhase, State.setCache, State.cacheOf]
  · rename_i call generation
    dsimp only
    split
    · simp [State.setPhase, PhaseSound]
    · simp only [State.setPhase, Function.update_self, PhaseSound]
      rw [State.run_snoc]
      change generation ≤ ((initial.run events).advance resolver).registry.epoch
      rw [State.registry_advance]
      exact Nat.le_trans hbefore (hsound.behind call.cache)
  · rename_i call generation
    simp only [State.setPhase, Function.update_self, PhaseSound]
    exact ⟨events, [], resolver, call, generation, rfl, hphase, rfl, rfl, hbefore⟩
  · simp [State.setPhase, PhaseSound]
  · rw [hphase]
    trivial

theorem Sound.behind_snoc (hsound : Sound initial events) (event : Event) (cache : Nat) :
    (((initial.run events).step event).caches cache).generation ≤
      ((initial.run events).step event).registry.epoch := by
  have hbefore := hsound.behind cache
  cases event with
  | map name id => exact Nat.le_succ_of_le hbefore
  | start resolver call => exact hbefore
  | advance resolver =>
      change (((initial.run events).advance resolver).caches cache).generation ≤
        ((initial.run events).advance resolver).registry.epoch
      rw [State.registry_advance]
      obtain hsame | ⟨call, epoch, hphase, hsync⟩ | ⟨_, _, _, _, happend⟩ :=
        (initial.run events).caches_advance_cases resolver cache
      · rw [hsame]
        exact hbefore
      · have hepoch := hsound.phases resolver
        rw [hphase] at hepoch
        rw [hsync, Arena.generation_sync]
        exact Nat.max_le.mpr ⟨hbefore, hepoch⟩
      · rw [happend, Arena.generation_tryAppend]
        exact hbefore

theorem Sound.stored_snoc (hsound : Sound initial events) (event : Event) (cache : Nat)
    (entry : Entry String (Option Int64))
    (hmem : entry ∈ (((initial.run events).step event).caches cache).entries) :
    Fetched initial (events ++ [event]) entry.key entry.value
      (((initial.run events).step event).caches cache).generation := by
  cases event with
  | map name id => exact (hsound.stored cache entry hmem).snoc _
  | start resolver call => exact (hsound.stored cache entry hmem).snoc _
  | advance resolver =>
      change entry ∈ (((initial.run events).advance resolver).caches cache).entries at hmem
      change Fetched initial _ _ _ (((initial.run events).advance resolver).caches cache).generation
      obtain hsame | ⟨call, epoch, hphase, hsync⟩ | ⟨call, generation, id, hphase, happend⟩ :=
        (initial.run events).caches_advance_cases resolver cache
      · rw [hsame] at hmem ⊢
        exact (hsound.stored cache entry hmem).snoc _
      · rw [hsync] at hmem ⊢
        obtain ⟨hmem, hle⟩ := Arena.mem_entries_sync hmem
        rw [Arena.generation_sync, Nat.max_eq_left hle]
        exact (hsound.stored cache entry hmem).snoc _
      · rw [happend] at hmem ⊢
        rw [Arena.generation_tryAppend]
        -- A late append changes the cache only if the cache is still where the fetch began.
        rcases Arena.mem_entries_tryAppend hmem with hold | ⟨hkey, hvalue, hgeneration⟩
        · exact (hsound.stored cache entry hold).snoc _
        · have hfetched := hsound.phases resolver
          rw [hphase] at hfetched
          rw [hkey, hvalue, hgeneration]
          exact Fetched.snoc hfetched _

theorem Sound.snoc (hsound : Sound initial events) (event : Event) :
    Sound initial (events ++ [event]) where
  behind := by
    rw [State.run_snoc]
    exact hsound.behind_snoc event
  stored := by
    rw [State.run_snoc]
    exact hsound.stored_snoc event
  phases := by
    intro resolver
    have hkept := (hsound.phases resolver).snoc event
    rw [State.run_snoc]
    cases event with
    | map name id => exact hkept
    | start starting call =>
        by_cases heq : resolver = starting
        · subst heq
          simp only [State.step, State.setPhase, Function.update_self, PhaseSound,
            State.run_append]
          exact State.epoch_le_epoch_run _ _
        · simpa [State.step, State.setPhase, heq] using hkept
    | advance advancing =>
        by_cases heq : resolver = advancing
        · subst heq
          exact hsound.phase_advance resolver
        · change PhaseSound initial _ (((initial.run events).advance advancing).phases resolver)
          rw [State.phases_advance_of_ne _ heq]
          exact hkept

end Steps

theorem sound_run (limit : Nat) (events : List Event) : Sound (.ofLimit limit) events := by
  induction events using List.reverseRecOn with
  | nil => exact sound_nil limit
  | append_singleton events event ih => exact ih.snoc event

/-! ### One resolve from its start to its return -/

/-- Where a resolve can stand that read the given epoch. -/
def Pursues (initial : State) (events : List Event) (call : Call) (epoch : Nat) : Phase → Prop
  | .idle => False
  | .opened asked read => asked = call ∧ read = epoch
  | .synced asked generation => asked = call ∧ epoch ≤ generation
  | .missed asked generation => asked = call ∧ epoch ≤ generation
  | .fetched _ _ id => Fetched initial events call.name id epoch
  | .returned id => Fetched initial events call.name id epoch

section Pursuit

variable {initial : State} {events : List Event} {call : Call} {epoch : Nat}

theorem Pursues.snoc {phase : Phase} (hpursues : Pursues initial events call epoch phase)
    (event : Event) : Pursues initial (events ++ [event]) call epoch phase := by
  cases phase with
  | idle => exact hpursues
  | opened asked read => exact hpursues
  | synced asked generation => exact hpursues
  | missed asked generation => exact hpursues
  | fetched asked generation id => exact Fetched.snoc hpursues event
  | returned id => exact Fetched.snoc hpursues event

theorem Pursues.advance (hsound : Sound initial events) {resolver : Nat}
    (hpursues : Pursues initial events call epoch ((initial.run events).phases resolver)) :
    Pursues initial (events ++ [.advance resolver]) call epoch
      (((initial.run events).advance resolver).phases resolver) := by
  have hbefore := hsound.phases resolver
  unfold State.advance
  split <;> rename_i hphase <;> rw [hphase] at hbefore hpursues
  · exact hpursues.elim
  · obtain ⟨rfl, rfl⟩ := hpursues
    simp only [State.setPhase, Function.update_self, Pursues, Arena.generation_sync]
    exact ⟨trivial, Nat.le_max_right _ _⟩
  · rename_i asked generation
    obtain ⟨rfl, hepoch⟩ := hpursues
    dsimp only
    split
    · rename_i id hfound
      -- The entry was stored at the cache's generation, which is past the epoch read.
      obtain ⟨entry, hmem, hkey, rfl⟩ := Arena.exists_mem_of_lookup_eq_some hfound
      have hfetched := hsound.stored asked.cache entry hmem
      rw [eq_of_beq hkey] at hfetched
      simp only [State.setPhase, Function.update_self, Pursues]
      exact (hfetched.anti (Nat.le_trans hepoch hbefore)).snoc _
    · simp only [State.setPhase, Function.update_self, Pursues]
      exact ⟨trivial, hepoch⟩
  · rename_i asked generation
    obtain ⟨rfl, hepoch⟩ := hpursues
    simp only [State.setPhase, Function.update_self, Pursues]
    exact ⟨events, [], resolver, asked, generation, rfl, hphase, rfl, rfl,
      Nat.le_trans hepoch hbefore⟩
  · simp only [State.setPhase, Function.update_self, Pursues]
    exact Fetched.snoc hpursues _
  · rw [hphase]
    exact Fetched.snoc hpursues _

theorem Pursues.step (hsound : Sound initial events) {resolver : Nat}
    (hpursues : Pursues initial events call epoch ((initial.run events).phases resolver))
    {event : Event} (hown : ∀ other, event ≠ .start resolver other) :
    Pursues initial (events ++ [event]) call epoch
      ((initial.run (events ++ [event])).phases resolver) := by
  have hkept := hpursues.snoc event
  rw [State.run_snoc]
  cases event with
  | map name id => exact hkept
  | start starting other =>
      have hne : resolver ≠ starting := by
        rintro rfl
        exact hown other rfl
      simpa [State.step, State.setPhase, hne] using hkept
  | advance advancing =>
      by_cases heq : resolver = advancing
      · subst heq
        exact Pursues.advance hsound hpursues
      · change Pursues initial _ _ _ (((initial.run events).advance advancing).phases resolver)
        rw [State.phases_advance_of_ne _ heq]
        exact hkept

end Pursuit

theorem pursues_run (limit : Nat) (before during : List Event) (resolver : Nat) (call : Call)
    (hown : ∀ event ∈ during, ∀ other, event ≠ .start resolver other) :
    Pursues (.ofLimit limit) (before ++ .start resolver call :: during) call
      ((State.ofLimit limit).run before).registry.epoch
      (((State.ofLimit limit).run (before ++ .start resolver call :: during)).phases resolver) := by
  induction during using List.reverseRecOn with
  | nil =>
      rw [State.run_snoc]
      simp [State.step, State.setPhase, Pursues]
  | append_singleton during event ih =>
      have hbefore := ih fun earlier hmem => hown earlier (List.mem_append_left _ hmem)
      have hnext := Pursues.step (sound_run limit _) hbefore
        (hown event (List.mem_append_right _ List.mem_cons_self))
      simpa using hnext

theorem prefix_total {first second events : List Event} (hfirst : first <+: events)
    (hsecond : second <+: events) : first <+: second ∨ ∃ event, second ++ [event] <+: first := by
  obtain hlt | hle := Nat.lt_or_ge second.length first.length
  · obtain ⟨rest, rfl⟩ := List.prefix_of_prefix_length_le hsecond hfirst (Nat.le_of_lt hlt)
    cases rest with
    | nil => simp at hlt
    | cons event rest => exact Or.inr ⟨event, rest, by simp⟩
  · exact Or.inl (List.prefix_of_prefix_length_le hfirst hsecond hle)

theorem epoch_le_of_isPrefix (initial : State) {first second : List Event} (hearlier : first <+: second) :
    (initial.run first).registry.epoch ≤ (initial.run second).registry.epoch := by
  obtain ⟨rest, rfl⟩ := hearlier
  rw [State.run_append]
  exact State.epoch_le_epoch_run _ _

/-- A lookup at an epoch not older than the start's finds what the registry held at the start or at
a later moment. -/
theorem Fetched.exists_moment {initial : State} {before during : List Event} {resolver : Nat}
    {call : Call} {id : Option Int64}
    (hfetched : Fetched initial (before ++ .start resolver call :: during) call.name id
      (initial.run before).registry.epoch) :
    ∃ moment, moment <+: during ∧
      (initial.run (before ++ .start resolver call :: moment)).registry.lookup call.name = id := by
  obtain ⟨earlier, later, fetcher, fetching, generation, hsplit, _, _, hid, hepoch⟩ := hfetched
  have hearlier : earlier <+: before ++ .start resolver call :: during :=
    ⟨.advance fetcher :: later, hsplit.symm⟩
  obtain hold | ⟨event, hnew⟩ := prefix_total hearlier (List.prefix_append before _)
  · -- Nothing was mapped between the lookup and the start.
    obtain ⟨rest, rfl⟩ := hold
    refine ⟨[], List.nil_prefix, ?_⟩
    rw [State.run_append] at hepoch
    rw [State.run_snoc, State.run_append]
    change ((initial.run earlier).run rest).registry.lookup call.name = id
    rw [State.registry_run_of_epoch_eq _ rest hepoch, hid]
  · obtain ⟨moment, rfl⟩ := hnew
    simp only [List.append_assoc, List.cons_append, List.nil_append, List.append_cancel_left_eq,
      List.cons.injEq] at hsplit
    obtain ⟨rfl, rfl⟩ := hsplit
    refine ⟨moment, ⟨_, rfl⟩, ?_⟩
    simpa using hid

/-- Whatever was mapped before the epoch was read is older than the lookup. -/
theorem map_prefix_of_epoch_le {initial : State} {earlier before events : List Event}
    (hearlier : earlier <+: events) (hbefore : before <+: events)
    (hepoch : (initial.run before).registry.epoch ≤ (initial.run earlier).registry.epoch)
    {past rest : List Event} {name : String} {id : Int64}
    (hsplit : before = past ++ .map name id :: rest) : past ++ [.map name id] <+: earlier := by
  have hmapped : past ++ [.map name id] <+: before := ⟨rest, by simp [hsplit]⟩
  have hpast : past <+: events := (List.prefix_append past _).trans (hmapped.trans hbefore)
  obtain hle | ⟨event, hlt⟩ := prefix_total hearlier hpast
  · have hafter := epoch_le_of_isPrefix initial hmapped
    have hbelow := epoch_le_of_isPrefix initial hle
    rw [State.run_snoc] at hafter
    change (initial.run past).registry.epoch + 1 ≤ _ at hafter
    omega
  · refine List.prefix_of_prefix_length_le (hmapped.trans hbefore) hearlier ?_
    simpa using hlt.length_le

/-- **Resolves are linearizable against mapping changes.** Take any interleaving in which a resolver
reads the epoch after `before` and has returned after `during`. The id that it returns is one that
the registry held at a moment in between, so it is the id held at the start or one mapped since; and
it was looked up, by this resolver or by the one whose entry it hit, after every mapping change that
precedes the start. -/
theorem resolve_linearizable (limit : Nat) (before during : List Event) (resolver : Nat)
    (call : Call) (id : Option Int64)
    (hown : ∀ event ∈ during, ∀ other, event ≠ .start resolver other)
    (hreturned : ((State.ofLimit limit).run (before ++ .start resolver call :: during)).phases
      resolver = .returned id) :
    (∃ moment, moment <+: during ∧
      ((State.ofLimit limit).run (before ++ .start resolver call :: moment)).registry.lookup
        call.name = id) ∧
    (((State.ofLimit limit).run before).registry.lookup call.name = id ∨
      ∃ newer, .map call.name newer ∈ during ∧ some newer = id) ∧
    ∃ earlier later fetcher fetching generation,
      before ++ .start resolver call :: during = earlier ++ .advance fetcher :: later ∧
      ((State.ofLimit limit).run earlier).phases fetcher = .missed fetching generation ∧
      fetching.name = call.name ∧
      ((State.ofLimit limit).run earlier).registry.lookup call.name = id ∧
      ∀ past name changed rest, before = past ++ .map name changed :: rest →
        past ++ [.map name changed] <+: earlier := by
  have hfetched := pursues_run limit before during resolver call hown
  rw [hreturned] at hfetched
  obtain ⟨moment, hmoment, hid⟩ := Fetched.exists_moment hfetched
  refine ⟨⟨moment, hmoment, hid⟩, ?_, ?_⟩
  · rw [List.append_cons, State.run_append, State.run_snoc] at hid
    obtain hsame | ⟨newer, hmem, hnewer⟩ := State.lookup_run_cases
      (((State.ofLimit limit).run before).step (.start resolver call)) moment call.name
    · exact Or.inl (hsame.symm.trans hid)
    · exact Or.inr ⟨newer, hmoment.subset hmem, hnewer.symm.trans hid⟩
  · obtain ⟨earlier, later, fetcher, fetching, generation, hsplit, hphase, hname, hread, hepoch⟩ :=
      hfetched
    refine ⟨earlier, later, fetcher, fetching, generation, hsplit, hphase, hname, hread, ?_⟩
    intro past name changed rest hpast
    exact map_prefix_of_epoch_le ⟨_, hsplit.symm⟩ (List.prefix_append before _) hepoch hpast

/-- A change between the start and the lookup is seen, though the id is stored under the epoch
before it. -/
theorem resolve_linearizable_moving :
    let call : Call := { cache := 0, site := 0, name := "moving" }
    let during : List Event :=
      [.map "moving" 2, .advance 0, .advance 0, .advance 0, .advance 0]
    let opened : List Event := [.map "moving" 1, .start 0 call]
    ((State.ofLimit 2).run (opened ++ during)).phases 0 = .returned (some 2) ∧
      ∃ moment, moment <+: during ∧
        ((State.ofLimit 2).run (opened ++ moment)).registry.lookup "moving" = some 2 := by
  intro call during opened
  have hreturned : ((State.ofLimit 2).run (opened ++ during)).phases 0 = .returned (some 2) := by
    have hlookup := Registry.lookup_map ((Registry.ofLimit 2).map "moving" 1) "moving" "moving" 2
    rw [if_pos rfl] at hlookup
    rw [← hlookup]
    rfl
  refine ⟨hreturned, ?_⟩
  refine (resolve_linearizable 2 [.map "moving" 1] during 0 call (some 2) ?_ hreturned).1
  intro event hmem other
  simp only [during, List.mem_cons, List.not_mem_nil, or_false] at hmem
  rcases hmem with rfl | rfl | rfl | rfl | rfl <;> simp

end ConcurrentResolve

end AdaptiveEval
