import LayerStorm.Lib.Recency
import LayerStorm.Compute.DecodeSpanGraph

/-!
# Runs of decode span graphs

Whatever calls of the driver fail, a runner holds few graphs, no two of a key with one fingerprint,
and destroys each at most once.  A call that returns has executed one span, eagerly or by a graph.
It is the span of the call if what the fingerprint keeps decides the work: that is no more than
forty pointers and eight scalars, and what is added beyond is not compared.

## Main results

* `spanGraphs_right` — **replay is transparent where what is kept decides the work**.
-/

namespace LayerStorm.Compute

open List Option AList
namespace SpanGraph

open Lib

variable {W : Type*} {emit : UInt32 → Args → W}

/-! ### What a fingerprint keeps -/

theorem foldl_add (l : List UInt64) : ∀ fp : Fp, fp.p.length ≤ maxPtrs →
    l.foldl Fp.add fp = { fp with p := (fp.p ++ l).take maxPtrs } := by
  induction l with
  | nil => exact fun fp h => by rw [append_nil, take_of_length_le h]; rfl
  | cons a l ih =>
    intro fp h
    rw [foldl_cons, Fp.add]
    split
    · next hlt =>
      rw [ih _ (by simpa using hlt), append_assoc]
      rfl
    · next hfull =>
      rw [ih fp h, ← le_antisymm h (not_lt.1 hfull), take_left, take_left]

theorem foldl_addS (l : List Int64) : ∀ fp : Fp, fp.s.length ≤ maxScalars →
    l.foldl Fp.addS fp = { fp with s := (fp.s ++ l).take maxScalars } := by
  induction l with
  | nil => exact fun fp h => by rw [append_nil, take_of_length_le h]; rfl
  | cons a l ih =>
    intro fp h
    rw [foldl_cons, Fp.addS]
    split
    · next hlt =>
      rw [ih _ (by simpa using hlt), append_assoc]
      rfl
    · next hfull =>
      rw [ih fp h, ← le_antisymm h (not_lt.1 hfull), take_left, take_left]

/-- The first forty pointers and the first eight scalars. -/
theorem Args.fp_eq (args : Args) :
    args.fp = ⟨args.ptrs.take maxPtrs, args.scalars.take maxScalars⟩ := by
  rw [Args.fp, foldl_add _ _ (Nat.zero_le _), foldl_addS _ _ (Nat.zero_le _)]
  rfl

/-! ### Reading the log -/

/-- The work that has been done on the stream. -/
def works (log : List (Event W)) : List W := log.filterMap Event.work

/-- The graphs that have been launched. -/
def launches (log : List (Event W)) : List ℕ := log.filterMap Event.launch

def misses (key : UInt32) (log : List (Event W)) : List Args := log.filterMap (Event.miss key)

variable {log : List (Event W)} {ev : Event W} {key : UInt32} {m : Map UInt32 (KeyState W)}
variable {ks : KeyState W} {next clock : ℕ}

theorem works_append (l l' : List (Event W)) : works (l ++ l') = works l ++ works l' :=
  filterMap_append

theorem launches_append (l l' : List (Event W)) : launches (l ++ l') = launches l ++ launches l' :=
  filterMap_append

theorem misses_append (l l' : List (Event W)) :
    misses key (l ++ l') = misses key l ++ misses key l' :=
  filterMap_append

theorem launches_tell (h : ev.launch = none) : launches (log ++ [ev]) = launches log := by
  simp [launches, filterMap_append, h]

theorem misses_tell (h : ev.miss key = none) : misses key (log ++ [ev]) = misses key log := by
  simp [misses, filterMap_append, h]

theorem Event.launch_of_handle (h : ev.handle = none) : ev.launch = none := by
  cases ev <;> first | rfl | cases h

/-! ### The invariant -/

variable (emit) in
structure KeyValid (log : List (Event W)) (next : ℕ) (key : UInt32) (ks : KeyState W) : Prop where
  cap : ks.variants.length ≤ variantCap
  fps : (ks.variants.map Entry.fp).Nodup
  execs : (ks.variants.map Entry.exec).Nodup
  live : ∀ e ∈ ks.variants, e.exec < next ∧ Event.destroyed e.exec ∉ log
  stamps : ∀ e ∈ ks.variants, LastUsedAt (launches log) e.exec e.lastUse
  origin : ∀ e ∈ ks.variants, ∃ args ∈ misses key log, e.fp = args.fp ∧ e.recorded = emit key args
  runs : ks.variants ≠ [] → 1 ≤ ks.runs
  full : ∀ fp, ks.pending = some fp → ks.variants.length = variantCap
  pending : ks.dead = false → ∀ fp, ks.pending = some fp →
    ∃ args, (misses key log).getLast? = some args ∧ args.fp = fp

/-- A graph of the one state is not one of the other. -/
def Apart (ks ks' : KeyState W) : Prop :=
  ∀ e ∈ ks.variants, ∀ e' ∈ ks'.variants, e.exec ≠ e'.exec

/-- No graph is held by two keys. -/
def Owned (m : Map UInt32 (KeyState W)) : Prop :=
  ∀ key key' ks ks', m.lookup key = some ks → m.lookup key' = some ks' → key ≠ key' → Apart ks ks'

/-- A graph that is destroyed is neither launched nor destroyed afterwards. -/
def DestroyedOnce (log : List (Event W)) : Prop :=
  log.Pairwise fun a b => ∀ id, a = .destroyed id → b.handle ≠ some id

variable (emit) in
/-- What holds between calls. -/
structure Valid (m : Map UInt32 (KeyState W)) (log : List (Event W)) (next clock : ℕ) : Prop where
  keys : ∀ key ks, m.lookup key = some ks → KeyValid emit log next key ks
  own : Owned m
  once : DestroyedOnce log
  fresh : ∀ ev ∈ log, ∀ id, ev.handle = some id → id < next
  clock : clock = (launches log).length

theorem KeyValid.tell (h : KeyValid emit log next key ks)
    (hev : ∀ e ∈ ks.variants, ev.handle ≠ some e.exec) (hmiss : ev.miss key = none) {next' : ℕ}
    (hnext : next ≤ next') : KeyValid emit (log ++ [ev]) next' key ks where
  __ := h
  live e he := by
    obtain ⟨hlt, hnot⟩ := h.live e he
    refine ⟨hlt.trans_le hnext, fun hmem => ?_⟩
    rcases mem_append.1 hmem with hmem | hmem
    · exact hnot hmem
    · exact hev e he (by rw [← mem_singleton.1 hmem]; rfl)
  stamps e he := by
    cases hl : ev.launch with
    | none => rw [launches_tell hl]; exact h.stamps e he
    | some id =>
      have heq : launches (log ++ [ev]) = launches log ++ [id] := by
        simp [launches, filterMap_append, hl]
      rw [heq]
      refine (h.stamps e he).append fun hid => hev e he ?_
      cases ev with
      | launched id' w => exact hl.trans (congrArg some hid)
      | _ => cases hl
  origin e he := by
    rw [misses_tell hmiss]
    exact h.origin e he
  pending := by
    rw [misses_tell hmiss]
    exact h.pending

theorem keyValid_default : KeyValid emit log next key {} where
  cap := Nat.zero_le _
  fps := nodup_nil
  execs := nodup_nil
  live _ he := by cases he
  stamps _ he := by cases he
  origin _ he := by cases he
  runs h := absurd rfl h
  full _ h := by cases h
  pending _ _ h := by cases h

theorem valid_init : Valid emit ∅ [] 0 0 where
  keys _ _ h := by simp at h
  own _ _ _ _ h := by simp at h
  once := List.Pairwise.nil
  fresh _ h := by cases h
  clock := rfl

theorem Owned.insert (h : Owned m)
    (hown : ∀ key' ≠ key, ∀ ks', m.lookup key' = some ks' → Apart ks ks') :
    Owned (m.insert key ks) := by
  intro k k' s s' hk hk' hne
  rcases Map.lookup_insert_iff.1 hk with ⟨rfl, rfl⟩ | ⟨hnk, hold⟩
  · rcases Map.lookup_insert_iff.1 hk' with ⟨rfl, rfl⟩ | ⟨hnk', hold'⟩
    · exact absurd rfl hne
    · exact hown k' hnk' s' hold'
  · rcases Map.lookup_insert_iff.1 hk' with ⟨rfl, rfl⟩ | ⟨-, hold'⟩
    · exact fun e he e' he' heq => hown k hnk s hold e' he' e he heq.symm
    · exact h k k' s s' hold hold' hne

variable {old : KeyState W}

theorem Owned.apart (h : Owned m) (hold : m.lookup key = some old)
    (hsub : ∀ e ∈ ks.variants, ∃ e₀ ∈ old.variants, e₀.exec = e.exec) :
    ∀ key' ≠ key, ∀ ks', m.lookup key' = some ks' → Apart ks ks' := by
  intro key' hne ks' hl e he e' he' heq
  obtain ⟨e₀, he₀, hexec⟩ := hsub e he
  exact h key key' old ks' hold hl hne.symm e₀ he₀ e' he' (hexec.trans heq)

theorem Valid.store (h : Valid emit m log next clock) (hks : KeyValid emit log next key ks)
    (hown : ∀ key' ≠ key, ∀ ks', m.lookup key' = some ks' → Apart ks ks') :
    Valid emit (m.insert key ks) log next clock where
  __ := h
  keys key' ks' hl := by
    rcases Map.lookup_insert_iff.1 hl with ⟨rfl, rfl⟩ | ⟨-, hl⟩
    · exact hks
    · exact h.keys key' ks' hl
  own := h.own.insert hown

theorem DestroyedOnce.tell (h : DestroyedOnce log)
    (hev : ∀ id, ev.handle = some id → Event.destroyed id ∉ log) : DestroyedOnce (log ++ [ev]) := by
  refine pairwise_append.2 ⟨h, pairwise_singleton _ _, ?_⟩
  intro a ha b hb id hid hh
  rw [mem_singleton.1 hb] at hh
  exact hev id hh (hid ▸ ha)

theorem Valid.tell (h : Valid emit m log next clock) (hev : ev.handle = none)
    (hmiss : ∀ key, ev.miss key = none) : Valid emit m (log ++ [ev]) next clock where
  keys key ks hl := (h.keys key ks hl).tell (fun e _ => by simp [hev]) (hmiss key) le_rfl
  own := h.own
  once := h.once.tell fun id hid => by simp [hev] at hid
  fresh e he id hid := by
    rcases mem_append.1 he with he | he
    · exact h.fresh e he id hid
    · rw [mem_singleton.1 he, hev] at hid
      cases hid
  clock := by rw [launches_tell (Event.launch_of_handle hev)]; exact h.clock

variable {args : Args}

section

variable (h : Valid emit m log next clock)
include h

theorem Valid.miss (hold : m.lookup key = some old)
    (hsub : ∀ e ∈ ks.variants, ∃ e₀ ∈ old.variants, e₀.exec = e.exec)
    (hks : KeyValid emit (log ++ [.missed key args]) next key ks) :
    Valid emit (m.insert key ks) (log ++ [.missed key args]) next clock where
  keys key' ks' hl := by
    rcases Map.lookup_insert_iff.1 hl with ⟨rfl, rfl⟩ | ⟨hne, hl⟩
    · exact hks
    · exact (h.keys key' ks' hl).tell (fun _ _ hcon => by cases hcon)
        (by simp [Event.miss, hne.symm]) le_rfl
  own := h.own.insert (h.own.apart hold hsub)
  once := h.once.tell fun id hid => by cases hid
  fresh e he id hid := by
    rcases mem_append.1 he with he | he
    · exact h.fresh e he id hid
    · rw [mem_singleton.1 he] at hid
      cases hid
  clock := by rw [launches_tell rfl]; exact h.clock

theorem Valid.destroy {id : ℕ} (hid : id < next) (hlive : Event.destroyed id ∉ log)
    (hheld : ∀ key ks, m.lookup key = some ks → ∀ e ∈ ks.variants, e.exec ≠ id) :
    Valid emit m (log ++ [.destroyed id]) next clock where
  keys key ks hl := by
    refine (h.keys key ks hl).tell (fun e he hcon => ?_) rfl le_rfl
    exact hheld key ks hl e he (some.inj hcon).symm
  own := h.own
  once := h.once.tell fun id' hid' => by rwa [← some.inj hid']
  fresh e he id' hid' := by
    rcases mem_append.1 he with he | he
    · exact h.fresh e he id' hid'
    · rw [mem_singleton.1 he] at hid'
      rwa [← some.inj hid']
  clock := by rw [launches_tell rfl]; exact h.clock

theorem Valid.takeHandle : Valid emit m log (next + 1) clock where
  __ := h
  keys key ks hl :=
    { h.keys key ks hl with
      live := fun e he => ⟨((h.keys key ks hl).live e he).1.trans (Nat.lt_succ_self _),
        ((h.keys key ks hl).live e he).2⟩ }
  fresh e he id hid := (h.fresh e he id hid).trans (Nat.lt_succ_self _)

theorem Valid.unused : Event.destroyed next ∉ log ∧
      ∀ key ks, m.lookup key = some ks → ∀ e ∈ ks.variants, e.exec ≠ next :=
  ⟨fun hmem => (h.fresh _ hmem next rfl).false,
    fun key ks hl e he heq => (heq ▸ ((h.keys key ks hl).live e he).1).false⟩

theorem Valid.launch {id : ℕ} {w : W} (hid : id < next) (hlive : Event.destroyed id ∉ log)
    (hother : ∀ key' ≠ key, ∀ ks', m.lookup key' = some ks' → ∀ e' ∈ ks'.variants, e'.exec ≠ id)
    (hks : KeyValid emit (log ++ [.launched id w]) next key ks)
    (hown : ∀ key' ≠ key, ∀ ks', m.lookup key' = some ks' → Apart ks ks') :
    Valid emit (m.insert key ks) (log ++ [.launched id w]) next (clock + 1) where
  keys key' ks' hl := by
    rcases Map.lookup_insert_iff.1 hl with ⟨rfl, rfl⟩ | ⟨hne, hl⟩
    · exact hks
    · refine (h.keys key' ks' hl).tell (fun e he hcon => ?_) rfl le_rfl
      exact hother key' hne ks' hl e he (some.inj hcon).symm
  own := h.own.insert hown
  once := h.once.tell fun id' hid' => by rwa [← some.inj hid']
  fresh e he id' hid' := by
    rcases mem_append.1 he with he | he
    · exact h.fresh e he id' hid'
    · rw [mem_singleton.1 he] at hid'
      rwa [← some.inj hid']
  clock := by
    rw [launches_append, length_append, ← h.clock]
    rfl

end

/-! ### The operations keep the invariant -/

namespace DecodeSpanGraphs

variable {g : DecodeSpanGraphs W} {c : Call}

variable (emit g) in
/-- The invariant of a runner. -/
def Ok : Prop := Valid emit g.keys g.log g.nextHandle g.clock

theorem ok_callEmit (h : g.Ok emit) : (g.callEmit emit c).1.Ok emit := by
  unfold callEmit
  split
  · exact Valid.tell h rfl fun _ => rfl
  · exact Valid.tell h rfl fun _ => rfl

theorem ok_runEager (h : g.Ok emit) : (g.runEager emit c).1.Ok emit := by
  have hcall : (g.callEmit emit c).1.Ok emit := ok_callEmit h
  unfold runEager
  dsimp only
  split <;> exact hcall

theorem ok_markFailed (h : g.Ok emit) (hks : g.keys.lookup c.key = some ks) :
    (g.markFailed c ks).Ok emit :=
  Valid.store h { h.keys _ _ hks with pending := fun hd => by cases hd }
    (h.own.apart hks fun e he => ⟨e, he, rfl⟩)

@[simp] theorem dropGraph_keys (returned : Bool) : (g.dropGraph returned).keys = g.keys := by
  unfold dropGraph
  split <;> rfl

theorem ok_dropGraph (h : g.Ok emit) (returned : Bool) : (g.dropGraph returned).Ok emit := by
  unfold dropGraph
  split
  · obtain ⟨hlive, hheld⟩ := h.unused
    exact Valid.destroy (Valid.takeHandle h) (Nat.lt_succ_self _) hlive hheld
  · exact h

/-! Replays. -/

@[simp] theorem map_fp_touch (fp : Fp) (stamp : ℕ) (l : List (Entry W)) :
    (touch fp stamp l).map Entry.fp = l.map Entry.fp := by
  induction l with
  | nil => rfl
  | cons e l ih =>
    rw [touch]
    split
    · rfl
    · rw [map_cons, map_cons, ih]

@[simp] theorem map_exec_touch (fp : Fp) (stamp : ℕ) (l : List (Entry W)) :
    (touch fp stamp l).map Entry.exec = l.map Entry.exec := by
  induction l with
  | nil => rfl
  | cons e l ih =>
    rw [touch]
    split
    · rfl
    · rw [map_cons, map_cons, ih]

variable {l : List (Entry W)} {e : Entry W} {fp : Fp}

theorem mem_touch {stamp : ℕ} (hfps : (l.map Entry.fp).Nodup) (he : e ∈ touch fp stamp l) :
    (e ∈ l ∧ e.fp ≠ fp) ∨ ∃ e₀ ∈ l, e₀.fp = fp ∧ e = { e₀ with lastUse := stamp } := by
  induction l with
  | nil => cases he
  | cons x l ih =>
    rw [map_cons, nodup_cons] at hfps
    rw [touch] at he
    split at he
    · next hx =>
      rcases mem_cons.1 he with rfl | he
      · exact .inr ⟨x, mem_cons_self, hx, rfl⟩
      refine .inl ⟨mem_cons_of_mem _ he, fun hfp => hfps.1 ?_⟩
      rw [hx, ← hfp]
      exact mem_map_of_mem he
    · next hx =>
      rcases mem_cons.1 he with rfl | he
      · exact .inl ⟨mem_cons_self, hx⟩
      rcases ih hfps.2 he with ⟨hmem, hne⟩ | ⟨e₀, hmem, hfp, heq⟩
      · exact .inl ⟨mem_cons_of_mem _ hmem, hne⟩
      · exact .inr ⟨e₀, mem_cons_of_mem _ hmem, hfp, heq⟩

theorem hit_eq_some (h : hit ks fp = some e) : ks.dead = false ∧ e ∈ ks.variants ∧ e.fp = fp := by
  unfold hit at h
  split at h
  · cases h
  · next hdead =>
    exact ⟨by simpa using hdead, mem_of_find?_eq_some h, by simpa using find?_some h⟩

theorem hit_eq_none (h : hit ks fp = none) (hdead : ks.dead = false) :
    ∀ e ∈ ks.variants, e.fp ≠ fp := by
  unfold hit at h
  rw [hdead] at h
  simpa using h

theorem eq_of_exec_eq (h : (l.map Entry.exec).Nodup) {a b : Entry W} (ha : a ∈ l) (hb : b ∈ l)
    (hab : a.exec = b.exec) : a = b :=
  inj_on_of_nodup_map h ha hb hab

theorem keyValid_touch (h : KeyValid emit log next key ks) (he : e ∈ ks.variants) :
    KeyValid emit (log ++ [.launched e.exec e.recorded]) next key
      { ks with variants := touch e.fp ((launches log).length + 1) ks.variants
                pending := none } := by
  -- a member of the new list is another graph, or the one that is launched
  have hcases : ∀ x ∈ touch e.fp ((launches log).length + 1) ks.variants,
      (x ∈ ks.variants ∧ x.exec ≠ e.exec) ∨
        x = { e with lastUse := (launches log).length + 1 } := by
    intro x hx
    rcases mem_touch h.fps hx with ⟨hmem, hne⟩ | ⟨e₀, he₀, hfp, heq⟩
    · exact .inl ⟨hmem, fun hid => hne (congrArg Entry.fp (eq_of_exec_eq h.execs hmem he hid))⟩
    · exact .inr (inj_on_of_nodup_map h.fps he₀ he hfp ▸ heq)
  have hlog : ∀ x : Entry W, Event.destroyed x.exec ∉ log →
      Event.destroyed x.exec ∉ log ++ [.launched e.exec e.recorded] := by
    intro x hx hmem
    rcases mem_append.1 hmem with hmem | hmem
    · exact hx hmem
    · cases mem_singleton.1 hmem
  have hlen : ∀ stamp, (touch e.fp stamp ks.variants).length = ks.variants.length := fun stamp => by
    have := congrArg length (map_fp_touch e.fp stamp ks.variants)
    rwa [length_map, length_map] at this
  exact
    { cap := (hlen _).trans_le h.cap
      fps := by simpa using h.fps
      execs := by simpa using h.execs
      live := fun x hx => by
        rcases hcases x hx with ⟨hmem, -⟩ | rfl
        · exact ⟨(h.live x hmem).1, hlog x (h.live x hmem).2⟩
        · exact ⟨(h.live e he).1, hlog e (h.live e he).2⟩
      stamps := fun x hx => by
        rw [launches_append]
        rcases hcases x hx with ⟨hmem, hne⟩ | rfl
        · exact (h.stamps x hmem).append hne.symm
        · exact lastUsedAt_append_self _ _
      origin := fun x hx => by
        rw [misses_tell rfl]
        rcases hcases x hx with ⟨hmem, -⟩ | rfl
        · exact h.origin x hmem
        · exact h.origin e he
      runs := fun _ => h.runs (ne_nil_of_mem he)
      full := fun _ hp => by cases hp
      pending := fun _ _ hp => by cases hp }

theorem ok_replay (h : g.Ok emit) (hks : g.keys.lookup c.key = some ks)
    (he : hit ks c.args.fp = some e) : (g.replay emit c ks e).1.Ok emit := by
  obtain ⟨-, hmem, hfp⟩ := hit_eq_some he
  unfold replay
  split
  · have hkey := h.keys _ _ hks
    have htouch := keyValid_touch hkey hmem
    rw [hfp, ← h.clock] at htouch
    refine Valid.launch h (hkey.live e hmem).1 (hkey.live e hmem).2 ?_ htouch
      (h.own.apart hks fun x hx => ?_)
    · exact fun key' hne ks' hl e' he' heq =>
        h.own _ _ _ _ hks hl hne.symm e hmem e' he' heq.symm
    · have hx' : x.exec ∈ (touch c.args.fp (g.clock + 1) ks.variants).map Entry.exec :=
        mem_map_of_mem hx
      rw [map_exec_touch] at hx'
      exact mem_map.1 hx'
  · exact ok_runEager (ok_markFailed h hks)

/-! Captures. -/

theorem keyValid_push (h : KeyValid emit log next key ks) (hargs : args ∈ misses key log)
    (hfp : ∀ e ∈ ks.variants, e.fp ≠ args.fp) (hroom : ks.variants.length < variantCap)
    (hruns : 1 ≤ ks.runs) (hunused : Event.destroyed next ∉ log) :
    KeyValid emit (log ++ [.launched next (emit key args)]) (next + 1) key
      { ks with
        variants := ks.variants ++ [⟨next, emit key args, args.fp, (launches log).length + 1⟩]
        pending := none } := by
  have hexec : ∀ e ∈ ks.variants, e.exec ≠ next := fun e he => (h.live e he).1.ne
  have hold : KeyValid emit (log ++ [.launched next (emit key args)]) (next + 1) key ks := by
    refine h.tell (fun e he hcon => ?_) rfl (Nat.le_succ _)
    exact hexec e he (some.inj hcon).symm
  have hmem : ∀ {P : Entry W → Prop}, (∀ e ∈ ks.variants, P e) →
      P ⟨next, emit key args, args.fp, (launches log).length + 1⟩ →
      ∀ e ∈ ks.variants ++ [⟨next, emit key args, args.fp, (launches log).length + 1⟩], P e := by
    intro P hP hnew e he
    rcases mem_append.1 he with he | he
    · exact hP e he
    · exact mem_singleton.1 he ▸ hnew
  exact
    { cap := by
        rw [length_append]
        exact hroom
      fps := by
        rw [map_append]
        refine h.fps.append (nodup_singleton _) fun x hx hx' => ?_
        obtain ⟨e, he, rfl⟩ := mem_map.1 hx
        exact hfp e he (mem_singleton.1 hx')
      execs := by
        rw [map_append]
        refine h.execs.append (nodup_singleton _) fun x hx hx' => ?_
        obtain ⟨e, he, rfl⟩ := mem_map.1 hx
        exact hexec e he (mem_singleton.1 hx')
      live := hmem hold.live ⟨Nat.lt_succ_self _, by simpa using hunused⟩
      stamps := by
        refine hmem hold.stamps ?_
        rw [launches_append]
        exact lastUsedAt_append_self _ _
      origin := by
        refine hmem hold.origin ⟨args, ?_, rfl, rfl⟩
        rw [misses_tell rfl]
        exact hargs
      runs := fun _ => hruns
      full := fun _ hp => by cases hp
      pending := fun _ _ hp => by cases hp }

@[simp] theorem misses_dropGraph (key : UInt32) (returned : Bool) :
    misses key (g.dropGraph returned).log = misses key g.log := by
  unfold dropGraph
  split
  · exact misses_tell rfl
  · rfl

theorem ok_capture (h : g.Ok emit) (hks : g.keys.lookup c.key = some ks)
    (hargs : c.args ∈ misses c.key g.log) (hfp : ∀ e ∈ ks.variants, e.fp ≠ c.args.fp)
    (hroom : ks.variants.length < variantCap) (hruns : 1 ≤ ks.runs) :
    (g.capture emit c ks).1.Ok emit := by
  have hdrop : ∀ returned, (g.dropGraph returned).Ok emit := ok_dropGraph h
  have hfail : ∀ returned, ((g.dropGraph returned).markFailed c ks).Ok emit := fun returned =>
    ok_markFailed (hdrop returned) (by rw [dropGraph_keys]; exact hks)
  unfold capture
  split
  · exact ok_runEager (ok_markFailed h hks)
  split
  · exact hfail _
  split
  · exact ok_runEager (hfail _)
  split
  · exact ok_runEager (hfail true)
  -- the graph has been instantiated
  obtain ⟨hlive, hheld⟩ := (hdrop true).unused
  split
  · refine ok_runEager (ok_markFailed ?_ (by show (g.dropGraph true).keys.lookup _ = _; simpa))
    exact Valid.destroy (Valid.takeHandle (hdrop true)) (Nat.lt_succ_self _) hlive hheld
  have hlookup : (g.dropGraph true).keys.lookup c.key = some ks := by
    exact hks
  have hargs' : c.args ∈ misses c.key (g.dropGraph true).log := by rwa [misses_dropGraph]
  have hpush := keyValid_push ((hdrop true).keys _ _ hlookup) hargs' hfp hroom hruns hlive
  rw [← (hdrop true).clock] at hpush
  refine Valid.launch (Valid.takeHandle (hdrop true)) (Nat.lt_succ_self _) hlive
    (fun key' _ => hheld key') hpush fun key' hne ks' hl e he e' he' => ?_
  rcases mem_append.1 he with he | he
  · exact (hdrop true).own _ _ _ _ hlookup hl hne.symm e he e' he'
  · rw [mem_singleton.1 he]
    exact (hheld key' ks' hl e' he').symm

/-! Evictions and misses. -/

theorem keyValid_miss (h : KeyValid emit log next key ks) {pending : Option Fp}
    (hfull : ∀ fp, pending = some fp → ks.variants.length = variantCap)
    (hpend : ks.dead = false → ∀ fp, pending = some fp → args.fp = fp) :
    KeyValid emit (log ++ [.missed key args]) next key
      { ks with runs := ks.runs + 1, pending := pending } where
  __ := h
  live e he := ⟨(h.live e he).1, by simpa using (h.live e he).2⟩
  stamps e he := by
    rw [launches_tell rfl]
    exact h.stamps e he
  origin e he := by
    obtain ⟨args', hmem, hargs'⟩ := h.origin e he
    refine ⟨args', ?_, hargs'⟩
    rw [misses_append]
    exact mem_append_left _ hmem
  runs _ := Nat.succ_pos _
  full := hfull
  pending hdead fp hfp := by
    refine ⟨args, ?_, hpend hdead fp hfp⟩
    simp [misses, filterMap_append, Event.miss]

theorem lru_spec (h : l ≠ []) :
    ∃ victim, l[lru l]? = some victim ∧ ∀ e ∈ l, victim.lastUse ≤ e.lastUse := by
  have w : StrictWeak fun i j => decide (stampAt l i < stampAt l j) :=
    StrictWeak.lex (fun i => stampAt l i) (fun _ => 0) (by simp)
  have hne : range l.length ≠ [] := by simpa using h
  obtain ⟨i, hi⟩ := firstBest_isSome w hne
  obtain ⟨hmem, hbest⟩ := firstBest_spec w hi
  have hlt := mem_range.1 hmem
  have hlru : lru l = i := by rw [lru, hi, getD_some]
  refine ⟨l[i], by rw [hlru, getElem?_eq_getElem hlt], fun e he => ?_⟩
  obtain ⟨j, hj, rfl⟩ := mem_iff_getElem.1 he
  have hij := hbest j (mem_range.2 hj)
  simpa [stampAt, hlt, hj] using hij

variable {victim : Entry W}

theorem erase_spec (hexecs : (l.map Entry.exec).Nodup) {i : ℕ} (hi : l[i]? = some victim) :
    (l.eraseIdx i).length + 1 = l.length ∧
      victim ∈ l ∧ (∀ e ∈ l.eraseIdx i, e ∈ l) ∧ ∀ e ∈ l.eraseIdx i, e.exec ≠ victim.exec := by
  obtain ⟨hlt, hget⟩ := List.getElem?_eq_some_iff.1 hi
  have hperm : (victim :: l.eraseIdx i).Perm l := hget ▸ getElem_cons_eraseIdx_perm hlt
  refine ⟨hperm.length_eq, hperm.subset mem_cons_self,
    fun e he => hperm.subset (mem_cons_of_mem _ he), fun e he heq => ?_⟩
  have hnodup := (hperm.map Entry.exec).nodup_iff.2 hexecs
  rw [map_cons, nodup_cons] at hnodup
  exact hnodup.1 (heq ▸ mem_map_of_mem he)

theorem evict_eq (ks : KeyState W) (h : ks.variants[lru ks.variants]? = some victim) :
    g.evict c ks = { ((g.tell (.evicted c.key c.args victim.exec
        (ks.variants.map Entry.exec))).tell (.destroyed victim.exec)).store c.key
        { ks with variants := ks.variants.eraseIdx (lru ks.variants), pending := none } with
      stats := { g.stats with evicted := g.stats.evicted + 1 } } := by
  rw [evict, h]

variable (h : g.Ok emit)
include h

theorem ok_evict (hks : g.keys.lookup c.key = some ks) (hfull : ks.variants ≠ []) :
    (g.evict c ks).Ok emit := by
  obtain ⟨victim, hv, -⟩ := lru_spec hfull
  have hkey := h.keys _ _ hks
  obtain ⟨hlen, hmem, hsub, hother⟩ := erase_spec hkey.execs hv
  rw [evict_eq ks hv]
  have hsublist := eraseIdx_sublist ks.variants (lru ks.variants)
  have herased : KeyValid emit g.log g.nextHandle c.key
      { ks with variants := ks.variants.eraseIdx (lru ks.variants), pending := none } :=
    { cap := hsublist.length_le.trans hkey.cap
      fps := (hsublist.map _).nodup hkey.fps
      execs := (hsublist.map _).nodup hkey.execs
      live := fun e he => hkey.live e (hsub e he)
      stamps := fun e he => hkey.stamps e (hsub e he)
      origin := fun e he => hkey.origin e (hsub e he)
      runs := fun _ => hkey.runs hfull
      full := fun _ hp => by cases hp
      pending := fun _ _ hp => by cases hp }
  have hstore := Valid.store h herased (h.own.apart hks fun e he => ⟨e, hsub e he, rfl⟩)
  have htell : Valid emit _ (g.log ++ [.evicted c.key c.args victim.exec
      (ks.variants.map Entry.exec)]) g.nextHandle g.clock :=
    Valid.tell hstore rfl fun _ => rfl
  refine Valid.destroy htell (hkey.live victim hmem).1 (by simpa using (hkey.live victim hmem).2)
    fun key' ks' hl e he => ?_
  rcases Map.lookup_insert_iff.1 hl with ⟨rfl, rfl⟩ | ⟨hne, hl⟩
  · exact hother e he
  · exact fun heq => h.own _ _ _ _ hks hl hne.symm victim hmem e he heq.symm

theorem ok_missed (hks : g.keys.lookup c.key = some ks) (hmiss : hit ks c.args.fp = none) :
    (g.missed emit c ks).1.Ok emit := by
  have hkey := h.keys _ _ hks
  have hmissed : ∀ pending : Option Fp,
      (∀ fp, pending = some fp → ks.variants.length = variantCap) →
      (ks.dead = false → ∀ fp, pending = some fp → c.args.fp = fp) →
      ((g.tell (.missed c.key c.args)).store c.key
        { ks with runs := ks.runs + 1, pending := pending }).Ok emit := fun pending hfull hpend =>
    Valid.miss h hks (fun e he => ⟨e, he, rfl⟩) (keyValid_miss hkey hfull hpend)
  have hlast : ∀ key ks', c.args ∈ misses c.key
      ((g.tell (.missed c.key c.args)).store key ks').log := fun key ks' => by
    show c.args ∈ misses c.key (g.log ++ [.missed c.key c.args])
    simp [misses, filterMap_append, Event.miss]
  unfold missed
  dsimp only
  split
  · next hskip =>
    -- nothing is pending for a key that has never been captured
    refine ok_runEager (hmissed ks.pending hkey.full fun hdead fp hfp => ?_)
    have hnone : ks.variants = [] := by
      by_contra hne
      have := hkey.runs hne
      simp only [hdead, Bool.false_or, decide_eq_true_eq] at hskip
      omega
    have := hkey.full fp hfp
    rw [hnone] at this
    cases this
  next hcap =>
  simp only [Bool.or_eq_true, not_or, Bool.not_eq_true] at hcap
  obtain ⟨hdead, hruns⟩ := hcap
  have hfp := hit_eq_none hmiss hdead
  split
  · next hfull =>
    have hcapEq : ks.variants.length = variantCap := le_antisymm hkey.cap hfull
    have hne : ks.variants ≠ [] := fun hnil => by rw [hnil] at hcapEq; cases hcapEq
    split
    · next hpending =>
      have hok := hmissed ks.pending (fun _ _ => hcapEq) fun _ fp hp =>
        some.inj (hpending.symm.trans hp)
      obtain ⟨victim, hv, -⟩ := lru_spec hne
      obtain ⟨hlen, -, hsub, -⟩ := erase_spec hkey.execs hv
      have hevict := ok_evict hok (lookup_insert _) hne
      have hstate : (((g.tell (.missed c.key c.args)).store c.key
          { ks with runs := ks.runs + 1 }).evict c { ks with runs := ks.runs + 1 }).keys.lookup
            c.key = some { ks with runs := ks.runs + 1
                                   variants := ks.variants.eraseIdx (lru ks.variants)
                                   pending := none } := by
        rw [evict_eq { ks with runs := ks.runs + 1 } hv]
        exact lookup_insert _
      rw [keyState, hstate]
      refine ok_capture hevict hstate ?_ (fun e he => hfp e (hsub e he)) ?_ (Nat.succ_pos _)
      · rw [evict_eq { ks with runs := ks.runs + 1 } hv]
        show c.args ∈ misses c.key (g.log ++ [.missed c.key c.args] ++ [_] ++ [_])
        simp [misses, filterMap_append, Event.miss]
      · show (ks.variants.eraseIdx (lru ks.variants)).length < variantCap
        omega
    · have hok := hmissed (some c.args.fp) (fun _ _ => hcapEq) fun _ fp hp => some.inj hp
      refine ok_runEager ?_
      show Valid emit ((g.keys.insert c.key _).insert c.key _) _ _ _
      rw [insert_insert]
      exact hok
  · next hroom =>
    have hlt : ks.variants.length < variantCap := not_le.1 hroom
    have hok := hmissed ks.pending hkey.full fun _ fp hp => absurd (hkey.full fp hp) hlt.ne
    exact ok_capture hok (lookup_insert _) (hlast _ _) hfp hlt (Nat.succ_pos _)

theorem ok_store_keyState (key : UInt32) : (g.store key (g.keyState key)).Ok emit := by
  refine Valid.store h ?_ ?_
  · unfold keyState
    cases hl : g.keys.lookup key with
    | none => exact keyValid_default
    | some ks => exact h.keys _ _ hl
  · unfold keyState
    cases hl : g.keys.lookup key with
    | none => exact fun _ _ _ _ e he => by cases he
    | some ks => exact h.own.apart hl fun e he => ⟨e, he, rfl⟩

theorem ok_run : (g.run emit c).1.Ok emit := by
  unfold run
  split
  · refine ok_callEmit ?_
    split <;> exact h
  have hstore := ok_store_keyState h c.key
  dsimp only
  split
  · next e he => exact ok_replay hstore (lookup_insert _) he
  · next hmiss => exact ok_missed hstore (lookup_insert _) hmiss

end DecodeSpanGraphs

theorem runAll_append_singleton (enabled : Bool) (ops : List Op) (op : Op) :
    runAll emit enabled (ops ++ [op]) = (runAll emit enabled ops).perform emit op := by
  simp [runAll]

theorem runAll_ok (enabled : Bool) (ops : List Op) : (runAll emit enabled ops).Ok emit := by
  induction ops using reverseRecOn with
  | nil => exact valid_init
  | append_singleton ops op ih =>
    rw [runAll_append_singleton]
    cases op with
    | run c => exact DecodeSpanGraphs.ok_run ih
    | enterBypass | leaveBypass => exact ih

/-! ### What one call executes -/

namespace DecodeSpanGraphs

variable (g : DecodeSpanGraphs W) (c : Call)

/-- The graph that a call replays. -/
def replays : Option (Entry W) :=
  if !g.enabled || g.bypass ≠ 0 || !c.replayOk then none else hit (g.keyState c.key) c.args.fp

/-- The call evicts a graph: all places are taken, and the fingerprint is pending. -/
def evicts : Bool :=
  let ks := g.keyState c.key
  g.enabled && g.bypass = 0 && !ks.dead && (hit ks c.args.fp).isNone &&
    1 ≤ ks.runs && ks.variants.length ≥ variantCap && ks.pending = some c.args.fp

variable {g c}

theorem works_tell_none (h : ev.work = none) : works (g.tell ev).log = works g.log := by
  show works (g.log ++ [ev]) = _
  simp [works, filterMap_append, h]

theorem works_callEmit (h : (g.callEmit emit c).2 = true) :
    works (g.callEmit emit c).1.log = works g.log ++ [emit c.key c.args] := by
  unfold callEmit at h ⊢
  split
  · next hthrows => simp [hthrows] at h
  · exact works_append _ _

theorem works_runEager (h : (g.runEager emit c).2 = true) :
    works (g.runEager emit c).1.log = works g.log ++ [emit c.key c.args] := by
  unfold runEager at h ⊢
  dsimp only at h ⊢
  split
  · next hok => exact works_callEmit hok
  · next hok => rw [if_neg hok] at h; exact absurd h hok

@[simp] theorem works_dropGraph (returned : Bool) :
    works (g.dropGraph returned).log = works g.log := by
  unfold dropGraph
  split
  · exact works_tell_none rfl
  · rfl

theorem works_fallback {g' : DecodeSpanGraphs W} (hg : works g'.log = works g.log)
    (h : (g'.runEager emit c).2 = true) :
    works (g'.runEager emit c).1.log = works g.log ++ [emit c.key c.args] :=
  hg ▸ works_runEager h

theorem works_capture (h : (g.capture emit c ks).2 = true) :
    works (g.capture emit c ks).1.log = works g.log ++ [emit c.key c.args] := by
  unfold capture at h ⊢
  split
  · next hb => rw [if_pos hb] at h; exact works_fallback rfl h
  next hb =>
  rw [if_neg hb] at h
  split
  · next ht => rw [if_pos ht] at h; cases h
  next ht =>
  rw [if_neg ht] at h
  split
  · next he => rw [if_pos he] at h; exact works_fallback (works_dropGraph _) h
  next he =>
  rw [if_neg he] at h
  split
  · next hi => rw [if_pos hi] at h; exact works_fallback (works_dropGraph _) h
  next hi =>
  rw [if_neg hi] at h
  split
  · next hl =>
    rw [if_pos hl] at h
    exact works_fallback ((works_tell_none rfl).trans (works_dropGraph _)) h
  · show works ((g.dropGraph true).log ++ [_]) = _
    rw [works_append, works_dropGraph]
    rfl

theorem works_evict : works (g.evict c ks).log = works g.log := by
  unfold evict
  split
  · show works (g.log ++ [_] ++ [_]) = _
    simp [works, Event.work]
  · rfl

theorem works_missed (h : (g.missed emit c ks).2 = true) :
    works (g.missed emit c ks).1.log = works g.log ++ [emit c.key c.args] := by
  have hmiss : works (g.tell (.missed c.key c.args)).log = works g.log := works_tell_none rfl
  unfold missed at h ⊢
  dsimp only at h ⊢
  split
  · next hskip => rw [if_pos hskip] at h; exact works_fallback hmiss h
  next hskip =>
  rw [if_neg hskip] at h
  split
  · next hfull =>
    rw [if_pos hfull] at h
    split
    · next hp =>
      rw [if_pos hp] at h
      rw [works_capture h, works_evict]
      exact congrArg (· ++ _) hmiss
    · next hp => rw [if_neg hp] at h; exact works_fallback hmiss h
  · next hroom =>
    rw [if_neg hroom] at h
    rw [works_capture h]
    exact congrArg (· ++ _) hmiss

theorem works_run (h : (g.run emit c).2 = true) : works (g.run emit c).1.log = works g.log ++
    [match g.replays c with | some e => e.recorded | none => emit c.key c.args] := by
  unfold run replays at *
  split
  · next hoff =>
    rw [if_pos hoff] at h
    have hnone : (if (!g.enabled || decide (g.bypass ≠ 0) || !c.replayOk) = true then none
        else hit (g.keyState c.key) c.args.fp) = none := if_pos (by rw [hoff, Bool.true_or])
    rw [works_callEmit h, hnone]
    split <;> rfl
  next hoff =>
  rw [if_neg hoff] at h
  cases he : hit (g.keyState c.key) c.args.fp with
  | none =>
    simp only [he, ite_self] at h ⊢
    exact works_missed h
  | some e =>
    simp only [he] at h ⊢
    unfold replay at h ⊢
    cases hr : c.replayOk with
    | true =>
      simp only [hoff]
      exact works_append _ _
    | false =>
      rw [hr] at h
      simp only [Bool.not_false, Bool.or_true]
      exact works_fallback rfl h

/-! ### What one call evicts -/

/-- Neither a miss nor an eviction. -/
def Plain : Event W → Prop
  | .missed _ _ => False
  | .evicted _ _ _ _ => False
  | _ => True

def Quiet (log log' : List (Event W)) : Prop :=
  ∃ new, log' = log ++ new ∧ ∀ ev ∈ new, Plain ev

theorem Quiet.refl (log : List (Event W)) : Quiet log log := ⟨[], by simp, by simp⟩

theorem Quiet.tell {log' : List (Event W)} (h : Quiet log log') (hev : Plain ev) :
    Quiet log (log' ++ [ev]) := by
  obtain ⟨new, rfl, hnew⟩ := h
  refine ⟨new ++ [ev], by rw [append_assoc], fun x hx => ?_⟩
  rcases mem_append.1 hx with hx | hx
  · exact hnew x hx
  · exact mem_singleton.1 hx ▸ hev

section

variable (h : Quiet log g.log)
include h

theorem quiet_callEmit : Quiet log (g.callEmit emit c).1.log := by
  unfold callEmit
  split
  · exact h.tell trivial
  · exact h.tell trivial

theorem quiet_runEager : Quiet log (g.runEager emit c).1.log := by
  have hcall : Quiet log (g.callEmit emit c).1.log := quiet_callEmit h
  unfold runEager
  dsimp only
  split <;> exact hcall

theorem quiet_dropGraph (returned : Bool) : Quiet log (g.dropGraph returned).log := by
  unfold dropGraph
  split
  · exact h.tell trivial
  · exact h

theorem quiet_capture : Quiet log (g.capture emit c ks).1.log := by
  have hdrop : ∀ returned, Quiet log ((g.dropGraph returned).markFailed c ks).log :=
    quiet_dropGraph h
  unfold capture
  split
  · exact quiet_runEager h
  split
  · exact hdrop _
  split
  · exact quiet_runEager (hdrop _)
  split
  · exact quiet_runEager (hdrop true)
  split
  · refine quiet_runEager ?_
    exact (hdrop true).tell trivial
  · exact (hdrop true).tell trivial

end

theorem evicted_run (h : g.Ok emit) : (g.evicts c = false ∧ (Quiet g.log (g.run emit c).1.log ∨
      Quiet (g.log ++ [.missed c.key c.args]) (g.run emit c).1.log)) ∨
    (g.evicts c = true ∧ ∃ victim held, victim ∈ held ∧ LeastRecent (launches g.log) victim held ∧
      Quiet (g.log ++ [.missed c.key c.args, .evicted c.key c.args victim held])
        (g.run emit c).1.log) := by
  unfold run evicts
  by_cases hoff : (!g.enabled || decide (g.bypass ≠ 0)) = true
  · left
    rw [if_pos hoff]
    refine ⟨?_, ?_⟩
    · rcases Bool.or_eq_true_iff.1 hoff with hen | hby
      · simp [show g.enabled = false by simpa using hen]
      · simp [show g.bypass ≠ 0 by simpa using hby]
    · refine .inl (quiet_callEmit ?_)
      split <;> exact Quiet.refl _
  rw [if_neg hoff]
  have hon : g.enabled = true ∧ g.bypass = 0 := by simpa using hoff
  have hstore := ok_store_keyState h c.key
  have hks : (g.store c.key (g.keyState c.key)).keys.lookup c.key = some (g.keyState c.key) :=
    lookup_insert _
  have hkey := hstore.keys _ _ hks
  dsimp only
  generalize g.keyState c.key = ks at *
  cases hhit : hit ks c.args.fp with
  | some e =>
    left
    refine ⟨by simp, .inl ?_⟩
    show Quiet g.log (replay emit (g.store c.key ks) c ks e).1.log
    unfold replay
    split
    · exact (Quiet.refl _).tell trivial
    · exact quiet_runEager (Quiet.refl _)
  | none =>
    simp only [missed]
    have hquiet := Quiet.refl (g.log ++ [.missed c.key c.args])
    by_cases hskip : (ks.dead || decide (ks.runs + 1 < 2)) = true
    · left
      rw [if_pos hskip]
      refine ⟨?_, .inr (quiet_runEager hquiet)⟩
      rcases Bool.or_eq_true_iff.1 hskip with hd | hr
      · simp [hd]
      · have : ks.runs = 0 := by simpa using hr
        simp [this]
    rw [if_neg hskip]
    simp only [Bool.or_eq_true, decide_eq_true_eq, not_or] at hskip
    by_cases hfull : ks.variants.length ≥ variantCap
    · rw [if_pos hfull]
      by_cases hp : ks.pending = some c.args.fp
      · right
        rw [if_pos hp]
        have hne : ks.variants ≠ [] := fun hnil => by rw [hnil] at hfull; cases hfull
        -- the only way to evict: a second miss in a row of a full key
        obtain ⟨victim, hv, hmin⟩ := lru_spec hne
        obtain ⟨-, hmem, -, -⟩ := erase_spec hkey.execs hv
        refine ⟨?_, victim.exec, ks.variants.map Entry.exec, mem_map_of_mem hmem, ?_, ?_⟩
        · have : 1 ≤ ks.runs := by omega
          simp [hon.1, hon.2, hskip.1, this, hfull, hp]
        · refine leastRecent_of_le (hkey.stamps victim hmem) fun id hid => ?_
          obtain ⟨e, he, rfl⟩ := mem_map.1 hid
          exact ⟨e.lastUse, hkey.stamps e he, hmin e he⟩
        · refine quiet_capture ?_
          rw [evict_eq { ks with runs := ks.runs + 1 } hv]
          show Quiet _ (g.log ++ [.missed c.key c.args] ++ [.evicted c.key c.args victim.exec
            (ks.variants.map Entry.exec)] ++ [.destroyed victim.exec])
          rw [append_assoc g.log]
          exact (Quiet.refl _).tell trivial
      · left
        rw [if_neg hp]
        exact ⟨by simp [hp], .inr (quiet_runEager hquiet)⟩
    · left
      rw [if_neg hfull]
      exact ⟨by simp [hfull], .inr (quiet_capture hquiet)⟩

variable {held : List ℕ}

theorem eq_of_quiet {log' before after : List (Event W)} {first : Event W}
    (h : Quiet (log ++ [first, ev]) log') (hfirst : ∀ k a v l, first ≠ .evicted k a v l)
    {victim : ℕ} (heq : log' = log ++ before ++ .evicted key args victim held :: after) :
    before = [first] ∧ ev = .evicted key args victim held := by
  obtain ⟨new, rfl, hnew⟩ := h
  rw [append_assoc, append_assoc, append_cancel_left_eq] at heq
  cases before with
  | nil => exact absurd (cons.inj heq).1 (hfirst _ _ _ _)
  | cons b before =>
    obtain ⟨rfl, hrest⟩ := cons.inj heq
    cases before with
    | nil => exact ⟨rfl, (cons.inj hrest).1⟩
    | cons b' before =>
      have hmem : Event.evicted key args victim held ∈ new := by
        rw [show new = before ++ .evicted key args victim held :: after from
          (cons.inj hrest).2]
        simp
      exact absurd (hnew _ hmem) id

theorem not_evicted_of_quiet {log' before after : List (Event W)} {first : List (Event W)}
    (h : Quiet (log ++ first) log') (hfirst : ∀ k a v l, Event.evicted k a v l ∉ first)
    {victim : ℕ} :
    log' ≠ log ++ before ++ .evicted key args victim held :: after := by
  obtain ⟨new, rfl, hnew⟩ := h
  intro heq
  rw [append_assoc, append_assoc, append_cancel_left_eq] at heq
  have hmem : Event.evicted key args victim held ∈ first ++ new := by
    rw [heq]
    simp
  rcases mem_append.1 hmem with hmem | hmem
  · exact hfirst _ _ _ _ hmem
  · exact absurd (hnew _ hmem) id

end DecodeSpanGraphs

/-! ### What a run has to do -/

variable (emit) in
/-- What a call has to do: the work of its own span once, and fair evictions. -/
structure RightCall (g : DecodeSpanGraphs W) (c : Call) : Prop where
  work : (g.run emit c).2 = true → works (g.run emit c).1.log = works g.log ++ [emit c.key c.args]
  eviction : ∀ before key args victim held after,
    (g.run emit c).1.log = g.log ++ before ++ .evicted key args victim held :: after →
      victim ∈ held ∧ LeastRecent (launches (g.log ++ before)) victim held ∧
        ∃ earlier args', misses key (g.log ++ before) = earlier ++ [args', args] ∧
          args'.fp = args.fp ∧ emit key args' = emit key args

theorem misses_missed (c : Call) : misses c.key (log ++ [.missed c.key c.args]) =
    misses c.key log ++ [c.args] := by
  simp [misses, filterMap_append, Event.miss]

variable {g : DecodeSpanGraphs W} {c : Call}

theorem misses_of_quiet {log' : List (Event W)} (h : DecodeSpanGraphs.Quiet log log') :
    misses key log' = misses key log := by
  obtain ⟨new, rfl, hnew⟩ := h
  have hnone : misses key new = [] := by
    refine filterMap_eq_nil_iff.2 fun ev hev => ?_
    have hplain := hnew ev hev
    cases ev with
    | missed | evicted => exact hplain.elim
    | _ => rfl
  rw [misses_append, hnone, append_nil]

/-- A call misses its key with its own pointers and scalars. -/
theorem misses_run (h : g.Ok emit) {args : Args} (hargs : args ∈ misses key (g.run emit c).1.log) :
    args ∈ misses key g.log ∨ c.key = key ∧ c.args = args := by
  have hadd : ∀ rest, misses key rest = ([] : List Args) →
      args ∈ misses key (g.log ++ (Event.missed c.key c.args :: rest)) →
      args ∈ misses key g.log ∨ c.key = key ∧ c.args = args := by
    intro rest hrest hmem
    rw [misses_append, show misses key (Event.missed c.key c.args :: rest) =
      misses key [.missed c.key c.args] ++ misses key rest from misses_append [_] rest, hrest,
      append_nil] at hmem
    refine (mem_append.1 hmem).imp_right fun hnew => ?_
    by_cases hkey : c.key = key
    · simpa [misses, Event.miss, hkey, eq_comm] using hnew
    · simp [misses, Event.miss, hkey] at hnew
  rcases DecodeSpanGraphs.evicted_run h with ⟨-, hq | hq⟩ | ⟨-, victim, held, -, -, hq⟩
  · exact .inl (misses_of_quiet hq ▸ hargs)
  · exact hadd [] rfl (misses_of_quiet hq ▸ hargs)
  · exact hadd [.evicted c.key c.args victim held] rfl (misses_of_quiet hq ▸ hargs)

theorem mem_misses_runAll {enabled : Bool} {ops : List Op} {args : Args}
    (h : args ∈ misses key (runAll emit enabled ops).log) :
    ∃ c, .run c ∈ ops ∧ c.key = key ∧ c.args = args := by
  induction ops using reverseRecOn with
  | nil => cases h
  | append_singleton ops op ih =>
    rw [runAll_append_singleton] at h
    have hold : args ∈ misses key (runAll emit enabled ops).log → ∃ c, .run c ∈ ops ++ [op] ∧
        c.key = key ∧ c.args = args := fun hmem => by
      obtain ⟨c, hc, hargs⟩ := ih hmem
      exact ⟨c, mem_append_left _ hc, hargs⟩
    cases op with
    | run c =>
      rcases misses_run (runAll_ok enabled ops) h with hmem | hnew
      · exact hold hmem
      · exact ⟨c, mem_append_right _ mem_cons_self, hnew⟩
    | enterBypass | leaveBypass => exact hold h

theorem last_miss_of_evicts (h : g.Ok emit) (hev : g.evicts c = true) :
    ∃ args, (misses c.key g.log).getLast? = some args ∧ args.fp = c.args.fp := by
  simp only [DecodeSpanGraphs.evicts, Bool.and_eq_true, decide_eq_true_eq, Bool.not_eq_true'] at hev
  obtain ⟨⟨⟨⟨⟨-, hdead⟩, -⟩, -⟩, -⟩, hp⟩ := hev
  have hstore := DecodeSpanGraphs.ok_store_keyState h c.key
  exact (hstore.keys _ _ (lookup_insert _)).pending hdead _ hp

/-- A graph that a call replays has recorded the work of an earlier call of the key, with a
fingerprint equal to this one's. -/
theorem recorded_of_replays (h : g.Ok emit) {e : Entry W} (he : g.replays c = some e) :
    ∃ args ∈ misses c.key g.log, args.fp = c.args.fp ∧ e.recorded = emit c.key args := by
  unfold DecodeSpanGraphs.replays at he
  split at he
  · cases he
  obtain ⟨-, hmem, hfp⟩ := DecodeSpanGraphs.hit_eq_some he
  have hstore := DecodeSpanGraphs.ok_store_keyState h c.key
  obtain ⟨args, hmiss, horigin, hrec⟩ :=
    (hstore.keys _ _ (lookup_insert _)).origin e hmem
  exact ⟨args, hmiss, horigin.symm.trans hfp, hrec⟩

/-- **A call does what it has to** if earlier calls of its key with its fingerprint emitted its
work. -/
theorem rightCall (h : g.Ok emit) (hwork : ∀ args ∈ misses c.key g.log, args.fp = c.args.fp →
    emit c.key args = emit c.key c.args) : RightCall emit g c := by
  refine ⟨fun hret => ?_, fun before key args victim held after heq => ?_⟩
  · rw [DecodeSpanGraphs.works_run hret]
    cases hrep : g.replays c with
    | none => rfl
    | some e =>
      obtain ⟨args, hmiss, hfp, hrec⟩ := recorded_of_replays h hrep
      rw [← hwork args hmiss hfp, ← hrec]
  · rcases DecodeSpanGraphs.evicted_run h with
      ⟨-, hq | hq⟩ | ⟨hev, victim', held', hmem, hlru, hquiet⟩
    · have hq' : DecodeSpanGraphs.Quiet (g.log ++ []) (g.run emit c).1.log := by simpa using hq
      exact absurd heq (DecodeSpanGraphs.not_evicted_of_quiet hq' (by simp))
    · exact absurd heq (DecodeSpanGraphs.not_evicted_of_quiet hq (by simp))
    obtain ⟨rfl, hevt⟩ := DecodeSpanGraphs.eq_of_quiet hquiet (by simp) heq
    obtain ⟨rfl, rfl, rfl, rfl⟩ := Event.evicted.inj hevt
    refine ⟨hmem, by rw [launches_tell rfl]; exact hlru, ?_⟩
    obtain ⟨args, hlast, hfp⟩ := last_miss_of_evicts h hev
    obtain ⟨earlier, hprev⟩ := getLast?_eq_some_iff.1 hlast
    refine ⟨earlier, args, ?_, hfp, hwork args (mem_of_getLast? hlast) hfp⟩
    rw [misses_missed, hprev, append_assoc]
    rfl

variable (emit) in
/-- What holds of a run: every call does what it has to, a key holds few graphs and no two with
one fingerprint, and a graph that is destroyed is not mentioned again, also when the runner is
closed. -/
structure SpanGraphsRight (enabled : Bool) (ops : List Op) : Prop where
  calls : ∀ before c after, ops = before ++ .run c :: after →
    RightCall emit (runAll emit enabled before) c
  held : ∀ before after, ops = before ++ after → ∀ key ks,
    (runAll emit enabled before).keys.lookup key = some ks →
      ks.variants.length ≤ variantCap ∧ (ks.variants.map Entry.fp).Nodup
  once : ∀ before id after, (runAll emit enabled ops).close.log = before ++ .destroyed id :: after →
    ∀ ev ∈ after, ev.handle ≠ some id

theorem destroyedOnce_close (h : g.Ok emit) : DestroyedOnce g.close.log := by
  have hmem : ∀ p ∈ g.keys.entries, KeyValid emit g.log g.nextHandle p.1 p.2 := fun p hp =>
    h.keys p.1 p.2 (mem_lookup_iff.2 hp)
  have hnodup : (g.keys.entries.flatMap fun p => p.2.variants.map Entry.exec).Nodup := by
    refine nodup_flatMap.2 ⟨fun p hp => (hmem p hp).execs, ?_⟩
    have hkeys := nodupKeys_iff_pairwise.1 g.keys.nodupKeys
    refine hkeys.imp_of_mem fun {p q} hp hq hne => ?_
    intro id hid hid'
    obtain ⟨e, he, rfl⟩ := mem_map.1 hid
    obtain ⟨e', he', heq⟩ := mem_map.1 hid'
    exact h.own _ _ _ _ (mem_lookup_iff.2 hp) (mem_lookup_iff.2 hq) hne e he e' he'
      heq.symm
  refine pairwise_append.2 ⟨h.once, ?_, ?_⟩
  · refine pairwise_map.2 (hnodup.imp fun {a b} hab id hid hh => hab ?_)
    have ha : a = id := by cases hid; rfl
    have hb : b = id := some.inj hh
    rw [ha, hb]
  · rintro a ha b hb id rfl hh
    obtain ⟨id', hid', rfl⟩ := mem_map.1 hb
    obtain rfl : id' = id := some.inj hh
    obtain ⟨p, hp, hid'⟩ := mem_flatMap.1 hid'
    obtain ⟨e, he, rfl⟩ := mem_map.1 hid'
    exact ((hmem p hp).live e he).2 ha

variable (emit) in
/-- Calls of one key that agree in what a fingerprint keeps emit the same work.  That is always so
if no call adds more than forty pointers and eight scalars. -/
def KeptDecides (ops : List Op) : Prop :=
  ∀ c c', .run c ∈ ops → .run c' ∈ ops → c.key = c'.key →
    c.args.ptrs.take maxPtrs = c'.args.ptrs.take maxPtrs →
    c.args.scalars.take maxScalars = c'.args.scalars.take maxScalars →
    emit c.key c.args = emit c.key c'.args

theorem keptDecides_of_fits {ops : List Op} (h : ∀ c, .run c ∈ ops →
    c.args.ptrs.length ≤ maxPtrs ∧ c.args.scalars.length ≤ maxScalars) : KeptDecides emit ops := by
  intro c c' hc hc' _ hp hs
  rw [take_of_length_le (h c hc).1, take_of_length_le (h c' hc').1] at hp
  rw [take_of_length_le (h c hc).2, take_of_length_le (h c' hc').2] at hs
  rw [show c.args = c'.args from congrArg₂ Args.mk hp hs]

/-- **Replay is transparent where what is kept decides the work.** -/
theorem spanGraphs_right {ops : List Op} (hkept : KeptDecides emit ops) (enabled : Bool) :
    SpanGraphsRight emit enabled ops := by
  refine ⟨fun before c after heq => ?_, fun before after _ key ks hks => ?_,
    fun before id after heq ev hev => ?_⟩
  · refine rightCall (runAll_ok enabled before) fun args hargs hfp => ?_
    obtain ⟨c', hc', hkey, rfl⟩ := mem_misses_runAll hargs
    rw [Args.fp_eq, Args.fp_eq, Fp.mk.injEq] at hfp
    have hmem : .run c' ∈ ops := heq ▸ mem_append_left _ hc'
    have hmem' : .run c ∈ ops := heq ▸ mem_append_right _ mem_cons_self
    rw [← hkey]
    exact hkept c' c hmem hmem' hkey hfp.1 hfp.2
  · have hok : (runAll emit enabled before).Ok emit := runAll_ok enabled before
    have hkey := hok.keys key ks hks
    exact ⟨hkey.cap, hkey.fps⟩
  · have hok : (runAll emit enabled ops).Ok emit := runAll_ok enabled ops
    have honce := destroyedOnce_close hok
    rw [heq] at honce
    exact (pairwise_cons.1 (pairwise_append.1 honce).2.1).1 ev hev id rfl

/-- A capture, two replays of it and a capture for another pointer. -/
theorem spanGraphs_right_two :
    SpanGraphsRight (fun _ args => args) true [.run { key := 1, args := ⟨[1], []⟩ },
      .run { key := 1, args := ⟨[1], []⟩ }, .run { key := 1, args := ⟨[1], []⟩ },
      .run { key := 1, args := ⟨[2], []⟩ }, .run { key := 1, args := ⟨[1], []⟩ }] :=
  spanGraphs_right (keptDecides_of_fits (by
    simp only [mem_cons, not_mem_nil, or_false, Op.run.injEq]
    rintro c (rfl | rfl | rfl | rfl | rfl) <;> decide)) true

/-- Forty pointers, and one more. -/
def fortyOne (last : UInt64) : Call where
  key := 1
  args := ⟨List.replicate 40 0 ++ [last], []⟩

/-- **The pointer that does not fit is not compared**: after a first call and a capture, a call
with another last pointer replays the graph. -/
theorem last_pointer_ignored : ¬ SpanGraphsRight (fun _ args => args) true
    [.run (fortyOne 1), .run (fortyOne 1), .run (fortyOne 2)] := by
  intro h
  have hlast := (h.calls [.run (fortyOne 1), .run (fortyOne 1)] (fortyOne 2) [] rfl).work
  revert hlast
  decide +kernel

end SpanGraph
end LayerStorm.Compute
