import DevkitCommon.Hertzx.RateLimit

/-! What the limits hold to: in a window no counter lets more requests of a key through than
the rate, as long as the key is counted with windows of one length. -/
namespace DevkitCommon.Hertzx.Guard
open Machine Redis Counter

section Keys

theorem redisKeyInj {service key key' : String} {start start' : Int} (whole : start%second = 0) (whole' : start'%second = 0)
    (same : redisKey service key start = redisKey service key' start') : key = key' ∧ start = start' := by
  have plain (i : Int) : ':' ∉ (Text.formatInt i).toList := by
    intro mem
    obtain digit | sign := Text.formatChars i ':' mem
    · exact absurd digit (by decide)
    · exact absurd sign (by decide)
  have chars := congrArg String.toList same
  simp only [redisKey,String.toList_append,List.append_assoc] at chars
  have chars' := List.append_cancel_left (List.append_cancel_left (List.append_cancel_left chars))
  obtain ⟨first,last⟩ := Text.cutLast (plain _) (plain _) chars'
  have number : start/second = start'/second := by
    have read := Text.signedFormat (start/second)
    rw [last,Text.signedFormat] at read
    exact (Option.some.inj read).symm
  unfold second at *
  exact ⟨String.toList_inj.mp first,by omega⟩

theorem scopesApart (r q : Request) : r.serviceKey ≠ q.routeKey := by
  intro same
  have chars := congrArg String.toList same
  simp only [Request.serviceKey,Request.routeKey,String.toList_append] at chars
  exact absurd (List.cons.inj chars).1 (by decide)

end Keys
section Windows

def RateWindow (w : Int) : Prop := w = second ∨ w = 60*second ∨ w = 3600*second

theorem unitWindow {unit : String} {w : Int} (read : rateUnit unit = some w) : RateWindow w := by
  unfold rateUnit at read
  split at read
  · exact .inl (Option.some.inj read).symm
  · split at read
    · exact .inr (.inl (Option.some.inj read).symm)
    · split at read
      · exact .inr (.inr (Option.some.inj read).symm)
      · cases read

theorem parsedWindow {text : String} {r : Rate} (read : parseRate text = .ok r) (on : r.off = false) :
    RateWindow r.window := by
  unfold parseRate at read
  dsimp only at read
  split at read
  · cases read
    cases on
  · split at read
    · split at read
      · cases read
      · split at read
        · cases read
        · rename_i w unit
          cases read
          exact unitWindow unit
    · cases read

theorem perIPWindow {cfg : Config} (on : cfg.perIP.off = false) : RateWindow cfg.perIP.window := by
  obtain default | ⟨text,read⟩ := cfg.parsed
  · rw [default]
    exact .inr (.inl rfl)
  · exact parsedWindow read on

theorem fillFrom {α : Type} {entries : List (String × α)} {table : Table α} {key : String} {v : α}
    (found : (entries.foldl (fun table e => table.insert e.1 e.2) table).lookup key = some v) :
    table.lookup key = some v ∨ ∃ e ∈ entries, e.2 = v := by
  induction entries generalizing table with
  | nil => exact .inl found
  | cons e rest ih =>
    obtain before | ⟨f,mem,same⟩ := ih found
    · by_cases here : key = e.1
      · rw [here,AList.lookup_insert] at before
        exact .inr ⟨e,List.mem_cons_self,Option.some.inj before⟩
      · rw [AList.lookup_insert_ne here] at before
        exact .inl before
    · exact .inr ⟨f,List.mem_cons_of_mem _ mem,same⟩

theorem routeWindow {doc : Document} {method path : String} {rate : Rate} (found : guardRate doc method path = some rate) :
    RateWindow rate.window := by
  unfold guardRate at found
  split at found
  · cases found
  · obtain ⟨listed,on⟩ := Option.filter_eq_some_iff.mp found
    unfold routeLimits tableOf at listed
    split at listed
    · rw [AList.lookup_empty] at listed
      cases listed
    obtain none | ⟨e,mem,same⟩ := fillFrom listed
    · rw [AList.lookup_empty] at none
      cases none
    · obtain ⟨⟨m,p,text⟩,_,read⟩ := List.mem_filterMap.mp mem
      obtain ⟨v,said,rfl⟩ := Option.map_eq_some_iff.mp read
      cases same
      unfold rateOf at said
      split at said
      · cases said
      · have read : parseRate text = .ok v := by
          cases parsed : parseRate text with
          | error e => rw [parsed] at said; cases said
          | ok r => rw [parsed] at said; cases said; rfl
        exact parsedWindow read (by simpa using on)

variable {now w start start' : Int}

theorem truncateSpec (now : Int) (window : RateWindow w) :
    truncate now w%w = 0 ∧ truncate now w ≤ now ∧ now < truncate now w + w := by
  unfold truncate
  obtain rfl | rfl | rfl := window <;> unfold second <;> omega

theorem wholeSecond (window : RateWindow w) (aligned : start%w = 0) : start%second = 0 := by
  obtain rfl | rfl | rfl := window <;> unfold second at * <;> omega

theorem windowsApart (window : RateWindow w) (aligned : start%w = 0) (aligned' : start'%w = 0) (before : start < start') :
    start + w ≤ start' := by
  obtain rfl | rfl | rfl := window <;> unfold second at * <;> omega

theorem windowOne (window : RateWindow w) (aligned : start%w = 0) (past : start ≤ now) :
    start = truncate now w ∨ start + w ≤ truncate now w := by
  have spec := truncateSpec now window
  obtain same | before | after := lt_trichotomy start (truncate now w)
  · exact .inr (windowsApart window aligned spec.1 same)
  · exact .inl before
  · have later := windowsApart window spec.1 aligned after
    omega

theorem hourLong (window : RateWindow w) : 0 < w ∧ w ≤ 3600*second := by
  obtain rfl | rfl | rfl := window <;> decide

end Windows
section Exec
variable {store : Store String Nat} {rk j : String} {ttl now : Int} {reply : Pipeline} {e : Entry Nat}

theorem execOther (other : j ≠ rk) : exec store now rk ttl reply j = store j := by
  unfold exec
  have first : (if reply.incr then incr store now rk else store) j = store j := by
    split
    · exact incrOther other
    · rfl
  split
  · rw [pexpireOther other,first]
  · exact first

theorem execHolds (reply : Pipeline) (live : lookup store now rk = some e) (positive : 0 < ttl/millisecond) :
    ∃ f, exec store now rk ttl reply rk = some f ∧ e.value ≤ f.value ∧
      ∀ t, f.lapses = some t → e.lapses = some t ∨ t = now + ttl/millisecond := by
  obtain ⟨here,inTime⟩ := lookupExact.mp live
  have first : ∃ f, (if reply.incr then incr store now rk else store) rk = some f ∧ e.value ≤ f.value ∧
      f.lapses = e.lapses := by
    split
    · obtain ⟨l,raw,kept⟩ := incrSame store now rk
      have value : Redis.get store now rk = some e.value := getExact.mpr ⟨e,here,inTime,rfl⟩
      exact ⟨_,raw,by rw [value,Option.getD_some]; exact Nat.le_succ _,kept e live⟩
    · exact ⟨e,here,Nat.le_refl _,rfl⟩
  obtain ⟨f,raw,value,lapses⟩ := first
  unfold exec
  split
  · have live' : lookup (if reply.incr then incr store now rk else store) now rk = some f := by
      refine lookupExact.mpr ⟨raw,?_⟩
      rw [Entry.live,lapses]
      exact inTime
    exact ⟨_,pexpireSame live' positive,value,fun t same => .inr (Option.some.inj same).symm⟩
  · exact ⟨f,raw,value,fun t same => .inl (lapses ▸ same)⟩

theorem execAnswers (store : Store String Nat) (now : Int) (rk : String) (positive : 0 < ttl/millisecond) :
    ∃ n, (Redis.get (incr store now rk) now rk).getD 0 = n ∧ 0 < n ∧
      exec store now rk ttl .answered rk = some ⟨n,some (now + ttl/millisecond)⟩ ∧
      ∀ e, lookup store now rk = some e → n = e.value + 1 := by
  obtain ⟨l,raw,kept⟩ := incrSame store now rk
  have live : lookup (incr store now rk) now rk = some ⟨(Redis.get store now rk).getD 0 + 1,l⟩ := by
    refine lookupExact.mpr ⟨raw,?_⟩
    cases look : lookup store now rk with
    | none =>
      have fresh : l = none := by
        have none' : incr store now rk rk = some ⟨1,none⟩ := by
          unfold incr
          rw [look,Function.update_self]
        rw [none'] at raw
        exact (congrArg Entry.lapses (Option.some.inj raw)).symm
      rw [fresh]
      rfl
    | some e =>
      rw [kept e look]
      exact (lookupExact.mp look).2
  have value : Redis.get (incr store now rk) now rk = some ((Redis.get store now rk).getD 0 + 1) := by
    rw [Redis.get,live,Option.map_some]
  refine ⟨(Redis.get store now rk).getD 0 + 1,by rw [value,Option.getD_some],Nat.succ_pos _,?_,?_⟩
  · exact pexpireSame live positive
  · intro e look
    rw [Redis.get,look,Option.map_some,Option.getD_some]

end Exec
section Local
variable {locals : Table Window} {key k : String} {now start : Int} {w : Window}

theorem pruneLookup : (prune now locals).lookup k = some w ↔ locals.lookup k = some w ∧ now - w.start ≤ 3600*second := by
  have listed (t : Table Window) : t.lookup k = some w ↔ Sigma.mk k w ∈ t.entries := AList.mem_lookup_iff
  rw [listed,listed]
  exact List.mem_filter.trans (and_congr_right (fun _ => decide_eq_true_iff))

structure CountedLocally (now : Int) (locals : Table Window) (key : String) (start : Int) (after : Table Window) (n : Nat) :
    Prop where
  own : after.lookup key = some ⟨start,n⟩
  number : (∃ w, locals.lookup key = some w ∧ w.start = start ∧ n = w.n+1) ∨
    (∀ w, locals.lookup key = some w → w.start ≠ start) ∧ n = 1
  kept : ∀ k w, k ≠ key → after.lookup k = some w → locals.lookup k = some w
  lost : ∀ k w, k ≠ key → locals.lookup k = some w → after.lookup k = some w ∨
    after.lookup k = none ∧ w.start + 3600*second < now

theorem countLocalDoes (now : Int) (locals : Table Window) (key : String) (start : Int) :
    CountedLocally now locals key start (countLocal now locals key start).1 (countLocal now locals key start).2 := by
  unfold countLocal
  split
  · rename_i w found
    obtain ⟨here,same⟩ := Option.filter_eq_some_iff.mp found
    exact ⟨AList.lookup_insert _,.inl ⟨w,here,of_decide_eq_true same,rfl⟩,
      fun k w other there => by rwa [AList.lookup_insert_ne other] at there,
      fun k w other there => .inl (by rwa [AList.lookup_insert_ne other])⟩
  · rename_i missed
    have begun : ∀ w, locals.lookup key = some w → w.start ≠ start := fun w here same =>
      absurd (Option.filter_eq_some_iff.mpr ⟨here,decide_eq_true same⟩) (by rw [missed]; exact fun no => nomatch no)
    refine ⟨AList.lookup_insert _,.inr ⟨begun,rfl⟩,fun k w other there => ?_,fun k w other there => ?_⟩
    · rw [AList.lookup_insert_ne other] at there
      split at there
      · exact (pruneLookup.mp there).1
      · exact there
    · rw [AList.lookup_insert_ne other]
      split
      · cases pruned : (prune now locals).lookup k with
        | none =>
          have old : ¬ now - w.start ≤ 3600*second := fun young => absurd (pruneLookup.mpr ⟨there,young⟩) (by
            rw [pruned]
            exact fun no => nomatch no)
          exact .inr ⟨rfl,by omega⟩
        | some v =>
          have same := (pruneLookup.mp pruned).1
          exact .inl (by rw [← Option.some.inj (there.symm.trans same)])
      · exact .inl there

end Local
section Counts

def Counters.given (s : Counters) (answered : Bool) (key : String) (start : Int) : List Count :=
  s.log.filter (fun c => c.answered = answered ∧ c.key = key ∧ c.start = start)

def Counters.inWindow (s : Counters) (key : String) (window start : Int) : List Count :=
  s.log.filter (fun c => c.key = key ∧ c.rate.window = window ∧ c.start = start)

def Count.admitted (c : Count) : Bool := decide ((c.number : Int) ≤ c.rate.n)

structure Counted (service : String) (s : Counters) : Prop where
  aligned : ∀ c ∈ s.log, RateWindow c.rate.window ∧ c.start%c.rate.window = 0 ∧ c.start ≤ s.clock
  oneWindow : ∀ c ∈ s.log, ∀ d ∈ s.log, c.key = d.key → c.rate.window = d.rate.window
  grow : ∀ answered key start, (s.given answered key start).Pairwise (fun c d => c.number < d.number)
  first : ∀ c ∈ s.log, 0 < c.number
  inRedis : ∀ c ∈ s.log, c.answered = true → ∃ e, s.redis (redisKey service c.key c.start) = some e ∧
    c.number ≤ e.value ∧ ∀ t, e.lapses = some t → c.start/millisecond + (c.rate.window + second)/millisecond ≤ t
  inLocals : ∀ c ∈ s.log, c.answered = false →
    (∃ w, s.locals.lookup c.key = some w ∧ (c.start < w.start ∨ c.start = w.start ∧ c.number ≤ w.n)) ∨
    s.locals.lookup c.key = none ∧ c.start + c.rate.window ≤ s.clock
  held : ∀ key w, s.locals.lookup key = some w → w.n = (s.given false key w.start).length ∧
    ∃ c ∈ s.log, c.answered = false ∧ c.key = key ∧ c.start = w.start

variable {service : String} {s : Counters} {c d : Count} {answered : Bool} {key : String} {start : Int}

theorem memGiven : c ∈ s.given answered key start ↔ c ∈ s.log ∧ c.answered = answered ∧ c.key = key ∧ c.start = start :=
  List.mem_filter.trans (and_congr_right (fun _ => decide_eq_true_iff))

theorem initCounted (service : String) (clock : Int) : Counted service (State.init clock).counters where
  aligned := fun _ mem => nomatch mem
  oneWindow := fun _ mem => nomatch mem
  grow := fun _ _ _ => List.Pairwise.nil
  first := fun _ mem => nomatch mem
  inRedis := fun _ mem => nomatch mem
  inLocals := fun _ mem => nomatch mem
  held := fun key w found => by
    rw [show (State.init clock).counters.locals = ∅ from rfl,AList.lookup_empty] at found
    cases found

theorem tickCounted (inv : Counted service s) (d : Nat) : Counted service {s with clock := s.clock + d} :=
  {inv with
    aligned := fun c mem => by
      obtain ⟨window,aligned,past⟩ := inv.aligned c mem
      exact ⟨window,aligned,by show c.start ≤ s.clock + d; omega⟩
    inLocals := fun c mem own => (inv.inLocals c mem own).imp_right (fun ⟨gone,ended⟩ =>
      ⟨gone,by show c.start + c.rate.window ≤ s.clock + d; omega⟩)}

theorem addCounted {t : Counters} (new : Count) (inv : Counted service s) (clock : t.clock = s.clock)
    (log : t.log = s.log ++ [new]) (window : RateWindow new.rate.window)
    (here : new.start = truncate s.clock new.rate.window)
    (only : ∀ c ∈ s.log, c.key = new.key → c.rate.window = new.rate.window)
    (next : ∀ c ∈ s.given new.answered new.key new.start, c.number < new.number) (positive : 0 < new.number)
    (inRedis : ∀ c ∈ t.log, c.answered = true → ∃ e, t.redis (redisKey service c.key c.start) = some e ∧
      c.number ≤ e.value ∧ ∀ l, e.lapses = some l → c.start/millisecond + (c.rate.window + second)/millisecond ≤ l)
    (inLocals : ∀ c ∈ t.log, c.answered = false →
      (∃ w, t.locals.lookup c.key = some w ∧ (c.start < w.start ∨ c.start = w.start ∧ c.number ≤ w.n)) ∨
      t.locals.lookup c.key = none ∧ c.start + c.rate.window ≤ t.clock)
    (held : ∀ key w, t.locals.lookup key = some w → w.n = (t.given false key w.start).length ∧
      ∃ c ∈ t.log, c.answered = false ∧ c.key = key ∧ c.start = w.start) : Counted service t where
  aligned := fun c mem => by
    rw [log] at mem
    rw [clock]
    obtain old | same := List.mem_append.mp mem
    · exact inv.aligned c old
    · have spec := truncateSpec s.clock window
      rw [List.mem_singleton.mp same,here]
      exact ⟨window,spec.1,spec.2.1⟩
  oneWindow := fun c memC d memD same => by
    rw [log] at memC memD
    obtain oldC | newC := List.mem_append.mp memC
    · obtain oldD | newD := List.mem_append.mp memD
      · exact inv.oneWindow c oldC d oldD same
      · rw [List.mem_singleton.mp newD] at same ⊢
        exact only c oldC same
    · rw [List.mem_singleton.mp newC] at same ⊢
      obtain oldD | newD := List.mem_append.mp memD
      · exact (only d oldD same.symm).symm
      · rw [List.mem_singleton.mp newD]
  grow := fun answered key start => by
    rw [Counters.given,log,List.filter_append]
    refine List.pairwise_append.mpr ⟨inv.grow answered key start,List.pairwise_singleton _ _ |>.filter _,?_⟩
    intro c memC d memD
    obtain ⟨same,matches'⟩ := List.mem_filter.mp memD
    obtain ⟨rfl,rfl,rfl⟩ := of_decide_eq_true matches'
    rw [List.mem_singleton.mp same] at memC ⊢
    exact next c memC
  first := fun c mem => by
    rw [log] at mem
    obtain old | same := List.mem_append.mp mem
    · exact inv.first c old
    · rw [List.mem_singleton.mp same]
      exact positive
  inRedis := inRedis
  inLocals := inLocals
  held := held

end Counts
section Over
variable {cfg : Config} {s : Counters} {key : String} {rate : Rate} {reply : Pipeline} {c : Count}

theorem counterLive (inv : Counted cfg.service s) (window : RateWindow rate.window) (mem : c ∈ s.log)
    (answered : c.answered = true) (length : c.rate.window = rate.window) (here : c.start = truncate s.clock rate.window) :
    ∃ e, lookup s.redis (s.clock/millisecond) (redisKey cfg.service c.key c.start) = some e ∧ c.number ≤ e.value ∧
      ∀ t, e.lapses = some t → c.start/millisecond + (c.rate.window + second)/millisecond ≤ t := by
  obtain ⟨e,raw,value,lapses⟩ := inv.inRedis c mem answered
  have open' := (truncateSpec s.clock window).2.2
  rw [← here,← length] at open'
  refine ⟨e,lookupExact.mpr ⟨raw,?_⟩,value,lapses⟩
  rw [Entry.live]
  cases later : e.lapses with
  | none => rfl
  | some t =>
    have bound := lapses t later
    obtain ⟨window',-,-⟩ := inv.aligned c mem
    refine decide_eq_true (?_ : s.clock/millisecond < t)
    unfold second millisecond at *
    omega

theorem redisKept (reply : Pipeline) (inv : Counted cfg.service s) (window : RateWindow rate.window)
    (only : ∀ c ∈ s.log, c.key = key → c.rate.window = rate.window) (mem : c ∈ s.log) (answered : c.answered = true) :
    ∃ e, exec s.redis (s.clock/millisecond) (redisKey cfg.service key (truncate s.clock rate.window)) (rate.window + second)
        reply (redisKey cfg.service c.key c.start) = some e ∧ c.number ≤ e.value ∧
      ∀ t, e.lapses = some t → c.start/millisecond + (c.rate.window + second)/millisecond ≤ t := by
  obtain ⟨window',aligned,past⟩ := inv.aligned c mem
  have spec := truncateSpec s.clock window
  by_cases same : redisKey cfg.service c.key c.start = redisKey cfg.service key (truncate s.clock rate.window)
  · obtain ⟨sameKey,sameStart⟩ := redisKeyInj (wholeSecond window' aligned) (wholeSecond window spec.1) same
    have length := only c mem sameKey
    obtain ⟨e,live,value,lapses⟩ := counterLive inv window mem answered length sameStart
    rw [← sameKey,← sameStart]
    have positive : 0 < (rate.window + second)/millisecond := by
      obtain one | one | one := window <;> rw [one] <;> decide
    obtain ⟨f,raw,more,later⟩ := execHolds reply live positive
    refine ⟨f,raw,Nat.le_trans value more,fun t same => ?_⟩
    obtain old | fresh := later t same
    · exact lapses t old
    · rw [fresh,length]
      unfold millisecond
      omega
  · rw [execOther same]
    exact inv.inRedis c mem answered

theorem earlier (inv : Counted cfg.service s) (window : RateWindow rate.window) (mem : c ∈ s.log)
    (length : c.rate.window = rate.window) :
    c.start = truncate s.clock rate.window ∨ c.start + c.rate.window ≤ truncate s.clock rate.window := by
  obtain ⟨-,aligned,past⟩ := inv.aligned c mem
  rw [length] at aligned ⊢
  exact windowOne window aligned past

theorem overAnswered (on : cfg.redis = true) {n : Nat} (given : (Redis.get (incr s.redis (s.clock/millisecond)
      (redisKey cfg.service key (truncate s.clock rate.window))) (s.clock/millisecond)
      (redisKey cfg.service key (truncate s.clock rate.window))).getD 0 = n) :
    overLimit cfg s key rate .answered =
      (⟨s.clock,exec s.redis (s.clock/millisecond) (redisKey cfg.service key (truncate s.clock rate.window))
          (rate.window + second) .answered,s.locals,s.log ++ [⟨key,rate,truncate s.clock rate.window,true,n⟩]⟩,
        if rate.n < n then truncate s.clock rate.window + rate.window - s.clock else 0) := by
  unfold overLimit
  rw [if_pos ⟨on,rfl⟩]
  dsimp only
  rw [if_pos on,given]

theorem overLocal (fails : ¬ (cfg.redis = true ∧ reply = .answered)) :
    overLimit cfg s key rate reply =
      (⟨s.clock,if cfg.redis then exec s.redis (s.clock/millisecond)
          (redisKey cfg.service key (truncate s.clock rate.window)) (rate.window + second) reply else s.redis,
        (countLocal s.clock s.locals key (truncate s.clock rate.window)).1,s.log ++ [⟨key,rate,truncate s.clock rate.window,
          false,(countLocal s.clock s.locals key (truncate s.clock rate.window)).2⟩]⟩,
        if rate.n < (countLocal s.clock s.locals key (truncate s.clock rate.window)).2
          then truncate s.clock rate.window + rate.window - s.clock else 0) := by
  unfold overLimit
  rw [if_neg fails]

theorem answeredKeeps (inv : Counted cfg.service s) (window : RateWindow rate.window)
    (only : ∀ c ∈ s.log, c.key = key → c.rate.window = rate.window) (on : cfg.redis = true) :
    Counted cfg.service (overLimit cfg s key rate .answered).1 := by
  have positive : 0 < (rate.window + second)/millisecond := by
    obtain one | one | one := window <;> rw [one] <;> decide
  obtain ⟨n,given,first,entry,one⟩ := execAnswers s.redis (s.clock/millisecond)
    (redisKey cfg.service key (truncate s.clock rate.window)) positive
  rw [overAnswered on given]
  refine addCounted ⟨key,rate,truncate s.clock rate.window,true,n⟩ inv rfl rfl window rfl only ?_ first ?_ ?_ ?_
  · intro c mem
    obtain ⟨mem,answered,sameKey,sameStart⟩ := memGiven.mp mem
    obtain ⟨e,live,value,-⟩ := counterLive inv window mem answered (only c mem sameKey) sameStart
    rw [sameKey,sameStart] at live
    show c.number < n
    rw [one e live]
    omega
  · intro c mem answered
    obtain old | new := List.mem_append.mp mem
    · exact redisKept .answered inv window only old answered
    · rw [List.mem_singleton.mp new]
      have past := (truncateSpec s.clock window).2.1
      refine ⟨_,entry,Nat.le_refl n,fun t same => ?_⟩
      rw [← Option.some.inj same]
      have sooner : truncate s.clock rate.window/millisecond ≤ s.clock/millisecond := Int.ediv_le_ediv (by decide) past
      exact Int.add_le_add_right sooner _
  · intro c mem own
    obtain old | new := List.mem_append.mp mem
    · exact inv.inLocals c old own
    · rw [List.mem_singleton.mp new] at own
      cases own
  · intro k w found
    obtain ⟨number,c,mem,own⟩ := inv.held k w found
    refine ⟨?_,c,List.mem_append_left _ mem,own⟩
    rw [number,Counters.given,Counters.given,List.filter_append,List.filter_cons_of_neg (by simp),List.filter_nil,
      List.append_nil]

theorem heldEarlier (inv : Counted cfg.service s) (window : RateWindow rate.window)
    (only : ∀ c ∈ s.log, c.key = key → c.rate.window = rate.window) {w : Window} (found : s.locals.lookup key = some w) :
    w.start ≤ truncate s.clock rate.window := by
  obtain ⟨-,c,mem,-,sameKey,sameStart⟩ := inv.held key w found
  have length := only c mem sameKey
  have long := (hourLong window).1
  obtain now | before := earlier inv window mem length <;> omega

theorem noneGiven (inv : Counted cfg.service s) (window : RateWindow rate.window)
    (only : ∀ c ∈ s.log, c.key = key → c.rate.window = rate.window)
    (other : ∀ w, s.locals.lookup key = some w → w.start ≠ truncate s.clock rate.window) :
    s.given false key (truncate s.clock rate.window) = [] := by
  refine List.eq_nil_iff_forall_not_mem.mpr (fun c mem => ?_)
  obtain ⟨mem,own,sameKey,here⟩ := memGiven.mp mem
  have length := only c mem sameKey
  have open' := (truncateSpec s.clock window).2.2
  obtain ⟨w,found,later | ⟨same,-⟩⟩ | ⟨-,ended⟩ := inv.inLocals c mem own
  · rw [sameKey] at found
    have bound := heldEarlier inv window only found
    omega
  · rw [sameKey] at found
    exact other w found (same.symm.trans here)
  · omega

theorem locallyKeeps (inv : Counted cfg.service s) (window : RateWindow rate.window)
    (only : ∀ c ∈ s.log, c.key = key → c.rate.window = rate.window) {store : Store String Nat}
    (redis : ∀ c ∈ s.log, c.answered = true → ∃ e, store (redisKey cfg.service c.key c.start) = some e ∧
      c.number ≤ e.value ∧ ∀ l, e.lapses = some l → c.start/millisecond + (c.rate.window + second)/millisecond ≤ l)
    {after : Table Window} {n : Nat} (counted : CountedLocally s.clock s.locals key (truncate s.clock rate.window) after n) :
    Counted cfg.service ⟨s.clock,store,after,s.log ++ [⟨key,rate,truncate s.clock rate.window,false,n⟩]⟩ := by
  -- every earlier count of the window has a smaller number, and the number says how many there are
  have before : ∀ c ∈ s.given false key (truncate s.clock rate.window), c.number < n := by
    intro c mem
    obtain ⟨w,found,same,number⟩ | ⟨other,-⟩ := counted.number
    · obtain ⟨mem,own,sameKey,here⟩ := memGiven.mp mem
      obtain ⟨v,found',later | ⟨-,most⟩⟩ | ⟨gone,-⟩ := inv.inLocals c mem own
      · rw [sameKey,found] at found'
        rw [← Option.some.inj found'] at later
        omega
      · rw [sameKey,found] at found'
        rw [← Option.some.inj found'] at most
        omega
      · rw [sameKey,found] at gone
        cases gone
    · rw [noneGiven inv window only other] at mem
      cases mem
  have many : n = (s.given false key (truncate s.clock rate.window)).length + 1 := by
    obtain ⟨w,found,same,number⟩ | ⟨other,number⟩ := counted.number
    · rw [number,(inv.held key w found).1,same]
    · rw [noneGiven inv window only other,number]
      rfl
  have positive : 0 < n := by omega
  refine addCounted ⟨key,rate,truncate s.clock rate.window,false,n⟩ inv rfl rfl window rfl only before positive ?_ ?_ ?_
  · intro c mem answered
    obtain old | new := List.mem_append.mp mem
    · exact redis c old answered
    · rw [List.mem_singleton.mp new] at answered
      cases answered
  · intro c mem own
    obtain old | new := List.mem_append.mp mem
    · by_cases sameKey : c.key = key
      · have length := only c old sameKey
        have long := (hourLong window).1
        rw [sameKey]
        refine .inl ⟨_,counted.own,?_⟩
        obtain here | past := earlier inv window old length
        · exact .inr ⟨here,Nat.le_of_lt (before c (memGiven.mpr ⟨old,own,sameKey,here⟩))⟩
        · exact .inl (by show c.start < truncate s.clock rate.window; omega)
      · obtain ⟨w,found,later⟩ | ⟨gone,ended⟩ := inv.inLocals c old own
        · obtain kept | ⟨lost,past⟩ := counted.lost c.key w sameKey found
          · exact .inl ⟨w,kept,later⟩
          · have long := (hourLong (inv.aligned c old).1).2
            exact .inr ⟨lost,by show c.start + c.rate.window ≤ s.clock; omega⟩
        · cases there : after.lookup c.key with
          | none => exact .inr ⟨rfl,ended⟩
          | some v =>
            have kept := counted.kept c.key v sameKey there
            rw [gone] at kept
            cases kept
    · rw [List.mem_singleton.mp new]
      exact .inl ⟨_,counted.own,.inr ⟨rfl,Nat.le_refl n⟩⟩
  · intro k w found
    by_cases sameKey : k = key
    · rw [sameKey] at found ⊢
      have same := Option.some.inj (counted.own.symm.trans found)
      rw [← same]
      refine ⟨?_,_,List.mem_append_right _ List.mem_cons_self,rfl,rfl,rfl⟩
      rw [Counters.given,List.filter_append,List.filter_cons_of_pos (by simp),List.filter_nil,List.length_append]
      exact many
    · obtain ⟨number,c,mem,own⟩ := inv.held k w (counted.kept k w sameKey found)
      have other : key ≠ k := fun same => sameKey same.symm
      refine ⟨?_,c,List.mem_append_left _ mem,own⟩
      rw [number,Counters.given,Counters.given,List.filter_append,List.filter_cons_of_neg (by simp [other]),List.filter_nil,
        List.append_nil]

theorem overKeeps (reply : Pipeline) (inv : Counted cfg.service s) (window : RateWindow rate.window)
    (only : ∀ c ∈ s.log, c.key = key → c.rate.window = rate.window) : Counted cfg.service (overLimit cfg s key rate reply).1 := by
  by_cases answers : cfg.redis = true ∧ reply = .answered
  · rw [answers.2]
    exact answeredKeeps inv window only answers.1
  · rw [overLocal answers]
    refine locallyKeeps inv window only (fun c mem answered => ?_) (countLocalDoes _ _ _ _)
    split
    · exact redisKept reply inv window only mem answered
    · exact inv.inRedis c mem answered

theorem overRejects (cfg : Config) (s : Counters) (key : String) (reply : Pipeline) (window : RateWindow rate.window) :
    ∃ c, (overLimit cfg s key rate reply).1.log = s.log ++ [c] ∧
    c.key = key ∧ c.rate = rate ∧ c.start = truncate s.clock rate.window ∧
    (0 < (overLimit cfg s key rate reply).2 ↔ c.admitted = false) := by
  have left := (truncateSpec s.clock window).2.2
  have verdict (n : Nat) : (0 < if rate.n < n then truncate s.clock rate.window + rate.window - s.clock else 0) ↔
      decide ((n : Int) ≤ rate.n) = false := by
    rw [decide_eq_false_iff_not]
    split <;> omega
  by_cases answers : cfg.redis = true ∧ reply = .answered
  · rw [answers.2,overAnswered answers.1 rfl]
    exact ⟨_,rfl,rfl,rfl,rfl,verdict _⟩
  · rw [overLocal answers]
    exact ⟨_,rfl,rfl,rfl,rfl,verdict _⟩

end Over
section Claim

structure Limited (s : Counters) : Prop where
  limit : ∀ key window start (n : Nat), (∀ c ∈ s.inWindow key window start, c.rate.n ≤ n) →
    ((∀ c ∈ s.inWindow key window start, c.answered = true) ∨ (∀ c ∈ s.inWindow key window start, c.answered = false) →
      (s.inWindow key window start).countP Count.admitted ≤ n) ∧
    (s.inWindow key window start).countP Count.admitted ≤ 2*n
  kept : ∀ c ∈ s.log, c.answered = false → s.clock < c.start + c.rate.window →
    s.locals.lookup c.key = some ⟨c.start,(s.given false c.key c.start).length⟩

variable {cfg : Config} {s t : State} {a : Action}

def oneLength (cfg : Config) (s : State) : Action → Bool
  | .route i _ => match s.requests[i]? with
    | some r => match guardRate cfg.doc r.method r.path with
      | some rate => s.counters.log.all (fun c => c.key != r.routeKey || c.rate.window == rate.window)
      | none => true
    | none => true
  | _ => true

theorem oneCounter {service : String} {s : Counters} (inv : Counted service s) {key : String} {window start : Int} {n : Nat}
    (rates : ∀ c ∈ s.inWindow key window start, c.rate.n ≤ n) (answered : Bool) :
    ((s.inWindow key window start).filter (fun c => c.answered == answered)).countP Count.admitted ≤ n := by
  rw [List.countP_eq_length_filter,List.filter_filter]
  have part : ((s.inWindow key window start).filter (fun c => c.admitted && c.answered == answered)).Sublist
      (s.given answered key start) := by
    rw [Counters.inWindow,Counters.given,List.filter_filter]
    refine List.monotone_filter_right _ (fun c both => ?_)
    simp only [Bool.and_eq_true,decide_eq_true_eq,beq_iff_eq] at both ⊢
    exact ⟨both.1.2,both.2.1,both.2.2.2⟩
  have growing := List.pairwise_map.mpr ((inv.grow answered key start).sublist part)
  have within : ∀ m ∈ ((s.inWindow key window start).filter (fun c => c.admitted && c.answered == answered)).map Count.number,
      0 < m ∧ m ≤ n := by
    intro m mem
    obtain ⟨c,listed,rfl⟩ := List.mem_map.mp mem
    obtain ⟨inside,both⟩ := List.mem_filter.mp listed
    have most : (c.number : Int) ≤ c.rate.n := of_decide_eq_true (Bool.and_eq_true_iff.mp both).1
    have rate := rates c inside
    exact ⟨inv.first c (List.mem_filter.mp inside).1,by omega⟩
  have bound := growingBound growing within
  rwa [List.length_map] at bound

theorem countedLimited {service : String} {s : Counters} (inv : Counted service s) : Limited s where
  limit := fun key window start n rates => by
    have answered := oneCounter inv rates true
    have own := oneCounter inv rates false
    have parts := List.countP_eq_countP_filter_add (s.inWindow key window start) Count.admitted (fun c => c.answered == true)
    have other : (s.inWindow key window start).filter (fun c => !c.answered == true) =
        (s.inWindow key window start).filter (fun c => c.answered == false) :=
      List.filter_congr (fun c _ => by cases c.answered <;> rfl)
    rw [other] at parts
    refine ⟨fun alone => ?_,by omega⟩
    obtain all | none := alone
    · have nothing : (s.inWindow key window start).filter (fun c => c.answered == false) = [] :=
        List.filter_eq_nil_iff.mpr (fun c mem => by rw [all c mem]; decide)
      rw [nothing,List.countP_nil] at parts
      omega
    · have nothing : (s.inWindow key window start).filter (fun c => c.answered == true) = [] :=
        List.filter_eq_nil_iff.mpr (fun c mem => by rw [none c mem]; decide)
      rw [nothing,List.countP_nil] at parts
      omega
  kept := fun c mem own open' => by
    obtain ⟨window,aligned,-⟩ := inv.aligned c mem
    obtain ⟨w,found,later⟩ | ⟨-,ended⟩ := inv.inLocals c mem own
    · obtain ⟨number,d,memD,-,sameKey,here⟩ := inv.held c.key w found
      have length := inv.oneWindow d memD c mem sameKey
      obtain ⟨-,aligned',past⟩ := inv.aligned d memD
      rw [length,here] at aligned'
      have same : w.start = c.start := by
        obtain before | ⟨same,-⟩ := later
        · have apart := windowsApart window aligned aligned' before
          omega
        · exact same.symm
      rw [found,← same,← number]
    · omega

structure Books (cfg : Config) (s : Counters) : Prop where
  counted : Counted cfg.service s
  origin : ∀ c ∈ s.log, c.rate = cfg.perIP ∨ ∃ r : Request, c.key = r.routeKey

theorem overBooks {s : Counters} {key : String} {rate : Rate} (reply : Pipeline) (inv : Books cfg s)
    (window : RateWindow rate.window) (only : ∀ c ∈ s.log, c.key = key → c.rate.window = rate.window)
    (scope : rate = cfg.perIP ∨ ∃ r : Request, key = r.routeKey) : Books cfg (overLimit cfg s key rate reply).1 := by
  refine ⟨overKeeps reply inv.counted window only,fun c mem => ?_⟩
  obtain ⟨d,log,sameKey,sameRate,-,-⟩ := overRejects cfg s key reply window
  rw [log] at mem
  obtain old | new := List.mem_append.mp mem
  · exact inv.origin c old
  · rw [List.mem_singleton.mp new,sameRate,sameKey]
    exact scope

def Booked (cfg : Config) (s : State) : Prop := Books cfg s.counters

theorem stepBooked (inv : Booked cfg s) (once : oneLength cfg s a = true) (one : step cfg s a = some t) : Booked cfg t := by
  cases a with
  | tick d =>
    cases Option.some.inj one
    exact ⟨tickCounted inv.counted d,inv.origin⟩
  | arrive method path ip =>
    cases Option.some.inj one
    exact inv
  | service i reply =>
    simp only [step,bind,Option.bind_eq_some_iff] at one
    obtain ⟨r,_,last⟩ := one
    split at last
    · cases Option.some.inj last
      split
      · exact inv
      · rename_i on
        refine overBooks reply inv (perIPWindow (by simpa using on)) (fun c mem same => ?_) (.inl rfl)
        obtain client | ⟨q,route⟩ := inv.origin c mem
        · rw [client]
        · exact absurd (same.symm.trans route) (scopesApart r q)
    · cases last
  | route i reply =>
    simp only [step,bind,Option.bind_eq_some_iff] at one
    obtain ⟨r,found,last⟩ := one
    split at last
    · cases Option.some.inj last
      split
      · exact inv
      · rename_i rate limit
        refine overBooks reply inv (routeWindow limit) (fun c mem same => ?_) (.inr ⟨r,rfl⟩)
        rw [oneLength,found] at once
        dsimp only at once
        rw [limit] at once
        have here := List.all_eq_true.mp once c mem
        rw [same] at here
        simpa using here
    · cases last

def limited (verb : Verb) (path rate : String) : PathEntry :=
  ⟨path,.verb verb,some ⟨.absent,.absent,.absent,.absent,.absent,.is rate,.absent⟩⟩

def gateway (redis : Bool) : Config :=
  ⟨"gateway",redis,[limited .post "/v1/code" "1/h",limited .get "/v1/code" "100/s",limited .post "/v1/login" "2/m"],
    ⟨600,60*second⟩,.inl rfl⟩

def counting (i : Nat) (method path : String) (reply : Pipeline) : List Action :=
  [.arrive method path "203.0.113.7",.service i reply,.route i reply]

def switching : List Action :=
  counting 0 "POST" "/v1/login" .answered ++ counting 1 "POST" "/v1/login" (.failed true false) ++
    counting 2 "POST" "/v1/login" .answered ++ counting 3 "GET" "/v1/code" .answered

/- Two requests an hour: in between the other method's second has begun under the same key. -/
def mixing : List Action :=
  counting 0 "POST" "/v1/code" (.failed false false) ++ counting 1 "GET" "/v1/code" (.failed false false) ++
    counting 2 "POST" "/v1/code" (.failed false false)

end Claim
end DevkitCommon.Hertzx.Guard
