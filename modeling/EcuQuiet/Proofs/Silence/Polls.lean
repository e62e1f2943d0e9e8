import EcuQuiet.Proofs.Bus.Duration
import EcuQuiet.Proofs.Silence.Verdicts

/-!
# The verdict of a watch, poll by poll

A watch polls: it reads the clock, receives a batch and reads the clock again. Which verdict it
comes to, and after which use of the link, is said here by the polls alone: by the time that has
passed since the watch began when it looks at the clock, and by the time that has passed since the
last poll that held a watched frame. This holds over every link, whatever its batches, its failures
and its clock, and says when a watch is over if the time that each poll takes is known.
-/

namespace EcuQuiet

variable {σ : Type}

/-- A poll of the bus: when it was begun, what it received, and when that was there. -/
structure Poll where
  begun : Instant
  batch : List Frame
  done : Instant

namespace Link

/-- The link takes a world through a poll. -/
structure Polls (link : Link σ) (p : Poll) (before after : σ) : Prop where
  begun : (link.now before).1 = p.begun
  received : (link.receive (link.now before).2).result = .ok p.batch
  done : (link.now (link.receive (link.now before).2).world).1 = p.done
  world : (link.now (link.receive (link.now before).2).world).2 = after

/-- The link takes a world through some polls, each with a pause behind it. -/
inductive PollsOn (link : Link σ) (pause : Span) : List Poll → σ → σ → Prop
  | nothing (world : σ) : PollsOn link pause [] world world
  | poll {p : Poll} {polls : List Poll} {before middle after : σ}
      (first : link.Polls p before middle)
      (others : PollsOn link pause polls (link.sleep pause middle) after) :
      PollsOn link pause (p :: polls) before after

end Link

namespace Silence

namespace Window

/-! ### What decides a watch -/

/-- When the last of some polls that holds a watched frame was done, or else when the window was
opened. -/
def lastSighting (o : Window) (polls : List Poll) : Instant :=
  (((polls.filter fun p => o.sees p.batch).getLast?).map (·.done)).getD o.opened

/-- The timeout is not over yet. -/
def Running (o : Window) (now : Instant) : Prop := now - o.opened < o.timeout.nanos

/-- After some polls, another one shows that the window is quiet: the quiet span has passed since
the last sighting, which may be in this poll. -/
def Confirms (o : Window) (polls : List Poll) (p : Poll) : Prop :=
  o.quiet.nanos ≤ p.done - o.lastSighting (polls ++ [p])

/-- None of some polls decides the window, nor does the clock when they are begun. -/
def Undecided (o : Window) (polls : List Poll) : Prop :=
  ∀ earlier p, earlier ++ [p] <+: polls → o.Running p.begun ∧ ¬o.Confirms earlier p

/-- What decides a window in a world, after some polls: another poll that shows that it is quiet,
the clock, or a failure of the interface. -/
inductive Decides (o : Window) (link : Link σ) (polls : List Poll) (world : σ) :
    Except DiagnosticError Bool → σ → Prop
  | confirmed {p : Poll} {after : σ} (running : o.Running p.begun)
      (taken : link.Polls p world after) (confirms : o.Confirms polls p) :
      Decides o link polls world (.ok true) after
  | expired (done : ¬o.Running (link.now world).1) :
      Decides o link polls world (.ok false) (link.now world).2
  | failed {cause : BusError} (running : o.Running (link.now world).1)
      (failed : (link.receive (link.now world).2).result = .error cause) :
      Decides o link polls world (.error (.bus cause)) (link.receive (link.now world).2).world

end Window

/-- The verdict of a watch in at most the given number of polls, and the world it leaves. -/
inductive Verdict (link : Link σ) (rounds : Nat) (bus : UInt8) (addresses : AddressSet)
    (timeout : Span) (settings : Settings) (before : σ) : Except DiagnosticError Bool → σ → Prop
  | refused (short : timeout ≤ settings.quiet) :
      Verdict link rounds bus addresses timeout settings before (.error .invalidParameter)
        (link.now before).2
  | decided {o : Window} {polls : List Poll} {middle after : σ}
      {verdict : Except DiagnosticError Bool} (opens : settings.quiet < timeout)
      (opened : o = .opening bus addresses timeout settings (link.now before).1)
      (fewer : polls.length < rounds)
      (passed : link.PollsOn settings.poll polls (link.now before).2 middle)
      (undecided : o.Undecided polls) (decides : o.Decides link polls middle verdict after) :
      Verdict link rounds bus addresses timeout settings before verdict after

/-! ### Windows behind some polls -/

namespace Window

/-- The window that some polls make of the one that was opened. -/
def behind (o : Window) (polls : List Poll) : Window :=
  { o with lastSeen := o.lastSighting polls }

variable {o : Window} {polls : List Poll} {p : Poll}

theorem behind_nil (bus : UInt8) (addresses : AddressSet) (timeout : Span) (settings : Settings)
    (now : Instant) :
    (opening bus addresses timeout settings now).behind [] =
      opening bus addresses timeout settings now := rfl

theorem behind_concat (o : Window) (polls : List Poll) (p : Poll) :
    o.behind (polls ++ [p]) = (o.behind polls).observe p.batch p.done := by
  have hsees : (o.behind polls).sees p.batch = o.sees p.batch := rfl
  rw [observe, hsees]
  by_cases h : o.sees p.batch
  · simp [behind, lastSighting, h]
  · simp [behind, lastSighting, h]

theorem isExpired_behind (o : Window) (polls : List Poll) (now : Instant) :
    (o.behind polls).isExpired now = true ↔ ¬o.Running now := by
  rw [Running, Nat.not_lt]
  exact decide_eq_true_iff

theorem running_of_open {now : Instant} (h : (o.behind polls).isExpired now = false) :
    o.Running now := by
  by_contra hover
  rw [(o.isExpired_behind polls now).mpr hover] at h
  cases h

theorem isQuiet_behind (o : Window) (polls : List Poll) (p : Poll) :
    ((o.behind polls).observe p.batch p.done).isQuiet p.done = true ↔ o.Confirms polls p := by
  rw [← behind_concat]
  exact decide_eq_true_iff

theorem undecided_nil (o : Window) : o.Undecided [] := by
  intro earlier p hpart
  cases earlier <;> simp at hpart

theorem undecided_concat :
    o.Undecided (polls ++ [p]) ↔ o.Undecided polls ∧ o.Running p.begun ∧ ¬o.Confirms polls p := by
  constructor
  · intro h
    exact ⟨fun earlier p' hpart => h earlier p' (hpart.trans (List.prefix_append ..)),
      h polls p (List.prefix_refl _)⟩
  · rintro ⟨h, hlast⟩ earlier p' hpart
    rw [List.prefix_concat_iff] at hpart
    obtain heq | hpart := hpart
    · obtain ⟨rfl, hsame⟩ := List.append_inj' heq rfl
      obtain rfl := List.singleton_inj.mp hsame
      exact hlast
    · exact h earlier p' hpart

end Window

/-! ### One look -/

section Looks

open Run

variable {link : Link σ} {pause : Span} {o : Window} {polls : List Poll} {world : σ}

/-- A poll is what the link makes of it. -/
theorem polls_unique {p p' : Poll} {after after' : σ}
    (h : link.Polls p world after) (h' : link.Polls p' world after') : p = p' ∧ after = after' := by
  obtain ⟨begun, batch, done⟩ := p
  obtain ⟨begun', batch', done'⟩ := p'
  obtain ⟨rfl, hreceived, rfl, rfl⟩ := h
  obtain ⟨rfl, hreceived', rfl, rfl⟩ := h'
  obtain rfl := Except.ok.inj (hreceived.symm.trans hreceived')
  exact ⟨rfl, rfl⟩

/-- A look is a poll that decides nothing, with a pause behind it, or it decides the window. -/
theorem look_decides (link : Link σ) (pause : Span) (o : Window) (polls : List Poll) (world : σ) :
    Meets False (· = world) (look link pause (o.behind polls))
      (Continues
        (fun next after => ∃ p middle, link.Polls p world middle ∧ o.Running p.begun ∧
          ¬o.Confirms polls p ∧ next = o.behind (polls ++ [p]) ∧ after = link.sleep pause middle)
        (o.Decides link polls world)) := by
  refine look_meets link
    (R := fun now after => now = (link.now world).1 ∧ after = (link.now world).2)
    (S := fun batch after => o.Running (link.now world).1 ∧
      (link.receive (link.now world).2).result = .ok batch ∧
        after = (link.receive (link.now world).2).world)
    (T := fun batch later after => ∃ p, batch = p.batch ∧ later = p.done ∧ o.Running p.begun ∧
      link.Polls p world after)
    (by rintro _ rfl; exact ⟨rfl, rfl⟩) ?expired ?failed ?received ?later ?quiet ?paused
  case expired =>
    rintro now after ⟨rfl, rfl⟩ hexpired
    exact .expired ((o.isExpired_behind polls _).mp hexpired)
  case failed =>
    rintro now after cause ⟨rfl, rfl⟩ hopen hfailed
    exact .failed (Window.running_of_open hopen) hfailed
  case received =>
    rintro now after batch ⟨rfl, rfl⟩ hopen hreceived
    exact ⟨Window.running_of_open hopen, hreceived, rfl⟩
  case later =>
    rintro batch after ⟨hrunning, hreceived, rfl⟩
    exact ⟨{ begun := _, batch, done := _ }, rfl, rfl, hrunning, rfl, hreceived, rfl, rfl⟩
  case quiet =>
    rintro batch later after ⟨p, rfl, rfl, hrunning, htaken⟩ hquiet
    exact .confirmed hrunning htaken ((o.isQuiet_behind polls p).mp hquiet)
  case paused =>
    rintro batch later after ⟨p, rfl, rfl, hrunning, htaken⟩ hloud
    refine ⟨p, after, htaken, hrunning, fun hconfirms => ?_, (o.behind_concat polls p).symm, rfl⟩
    rw [(o.isQuiet_behind polls p).mpr hconfirms] at hloud
    cases hloud

/-- A window that something decides is not decided by a poll that goes by. -/
theorem confirms_of_decides {verdict : Except DiagnosticError Bool} {p : Poll} {after middle : σ}
    (h : o.Decides link polls world verdict after) (hpoll : link.Polls p world middle)
    (hrunning : o.Running p.begun) : o.Confirms polls p := by
  cases h with
  | confirmed _ taken confirms =>
      obtain ⟨rfl, -⟩ := polls_unique taken hpoll
      exact confirms
  | expired done =>
      rw [hpoll.begun] at done
      exact absurd hrunning done
  | failed _ failed => cases failed.symm.trans hpoll.received

theorem decides_unique {verdict verdict' : Except DiagnosticError Bool} {after after' : σ}
    (h : o.Decides link polls world verdict after)
    (h' : o.Decides link polls world verdict' after') : verdict = verdict' ∧ after = after' := by
  cases h with
  | confirmed running taken _ =>
      cases h' with
      | confirmed _ taken' _ => exact ⟨rfl, (polls_unique taken taken').2⟩
      | expired done =>
          rw [taken.begun] at done
          exact absurd running done
      | failed _ failed => cases failed.symm.trans taken.received
  | expired done =>
      cases h' with
      | confirmed running taken _ =>
          rw [taken.begun] at done
          exact absurd running done
      | expired => exact ⟨rfl, rfl⟩
      | failed running _ => exact absurd running done
  | failed running failed =>
      cases h' with
      | confirmed _ taken _ => cases failed.symm.trans taken.received
      | expired done => exact absurd running done
      | failed _ failed' =>
          obtain rfl := Except.error.inj (failed.symm.trans failed')
          exact ⟨rfl, rfl⟩

/-! ### One look after the other -/

/-- What the looks of a watch come to: a decision after fewer polls than there may be, or as many
polls without one. -/
theorem loop_decides (link : Link σ) (pause : Span) (rounds : Nat) (hseen : o.Undecided polls)
    (w : Logged σ) :
    match loop (look link pause) rounds (o.behind polls) w with
    | none => ∃ more middle, more.length = rounds ∧ link.PollsOn pause more w.world middle ∧
        o.Undecided (polls ++ more)
    | some (verdict, after) => ∃ more middle, more.length < rounds ∧
        link.PollsOn pause more w.world middle ∧ o.Undecided (polls ++ more) ∧
          o.Decides link (polls ++ more) middle verdict after.world := by
  induction rounds generalizing polls w with
  | zero => exact ⟨[], w.world, rfl, .nothing _, by rwa [List.append_nil]⟩
  | succ rounds ih =>
      obtain ⟨result, middle, hlook, hend⟩ :=
        (look_decides link pause o polls w.world).exists_end rfl
      have hnow : ∀ verdict, o.Decides link polls w.world verdict middle.world →
          ∃ more world, more.length < rounds + 1 ∧ link.PollsOn pause more w.world world ∧
            o.Undecided (polls ++ more) ∧
              o.Decides link (polls ++ more) world verdict middle.world := fun verdict h =>
        ⟨[], w.world, Nat.succ_pos _, .nothing _, by rwa [List.append_nil],
          by rwa [List.append_nil]⟩
      rw [loop_succ, hlook]
      rcases result with e | next | verdict
      · exact hnow _ hend
      · obtain ⟨p, after, hpoll, hrunning, hloud, rfl, hafter⟩ := hend
        have hrest := ih (Window.undecided_concat.mpr ⟨hseen, hrunning, hloud⟩) middle
        dsimp only
        generalize loop (look link pause) rounds (o.behind (polls ++ [p])) middle = ended at hrest ⊢
        rw [hafter] at hrest
        cases ended with
        | none =>
            obtain ⟨more, world, hlength, hmore, hundecided⟩ := hrest
            rw [List.append_assoc] at hundecided
            exact ⟨p :: more, world, congrArg (· + 1) hlength, .poll hpoll hmore, hundecided⟩
        | some ended =>
            obtain ⟨more, world, hlength, hmore, hundecided, hdecides⟩ := hrest
            rw [List.append_assoc] at hundecided hdecides
            exact ⟨p :: more, world, Nat.succ_lt_succ hlength, .poll hpoll hmore, hundecided,
              hdecides⟩
      · exact hnow _ hend

/-- After polls that decide nothing, and with one round more, the looks of a watch end as something
decides. -/
theorem loop_of_decides (polls : List Poll) {more : List Poll} {start middle after : σ}
    {verdict : Except DiagnosticError Bool} {rounds : Nat}
    (hmore : link.PollsOn pause more start middle) (hrounds : more.length < rounds)
    (hundecided : o.Undecided (polls ++ more))
    (hdecides : o.Decides link (polls ++ more) middle verdict after) {w : Logged σ}
    (hw : w.world = start) :
    (loop (look link pause) rounds (o.behind polls) w).map (fun e => (e.1, e.2.world)) =
      some (verdict, after) := by
  induction hmore generalizing polls rounds w with
  | nothing world =>
      subst hw
      obtain ⟨rounds, rfl⟩ := Nat.exists_eq_succ_of_ne_zero (Nat.ne_of_gt hrounds)
      obtain ⟨result, last, hlook, hend⟩ :=
        (look_decides link pause o polls w.world).exists_end rfl
      rw [List.append_nil] at hdecides
      rw [loop_succ, hlook]
      rcases result with e | next | b
      · obtain ⟨rfl, rfl⟩ := decides_unique hdecides hend
        rfl
      · obtain ⟨p, _, hpoll, hrunning, hloud, -⟩ := hend
        exact absurd (confirms_of_decides hdecides hpoll hrunning) hloud
      · obtain ⟨rfl, rfl⟩ := decides_unique hdecides hend
        rfl
  | @poll p more before middle last first others ih =>
      subst hw
      obtain ⟨rounds, rfl⟩ :=
        Nat.exists_eq_succ_of_ne_zero (Nat.ne_of_gt (Nat.zero_lt_of_lt hrounds))
      obtain ⟨hrunning, hloud⟩ := hundecided polls p ⟨more, by rw [List.append_assoc]; rfl⟩
      obtain ⟨result, last, hlook, hend⟩ :=
        (look_decides link pause o polls w.world).exists_end rfl
      rw [loop_succ, hlook]
      rcases result with e | next | b
      · exact absurd (confirms_of_decides hend first hrunning) hloud
      · obtain ⟨p', _, hpoll, -, -, rfl, hlast⟩ := hend
        obtain ⟨rfl, rfl⟩ := polls_unique first hpoll
        have hmore : polls ++ p :: more = polls ++ [p] ++ more := by rw [List.append_assoc]; rfl
        rw [hmore] at hundecided hdecides
        exact ih (polls ++ [p]) (Nat.lt_of_succ_lt_succ hrounds) hundecided hdecides hlast
      · exact absurd (confirms_of_decides hend first hrunning) hloud

end Looks

/-! ### The time of polls -/

end Silence

/-- A link of which it is known how time passes while it is polled, as long as its worlds are
`steady`: the clock shows the time, a reading of the bus takes no more than `longest`, whether it
fails or not, and a pause is no longer than it was meant to be. -/
structure Link.Measured (link : Link σ) (steady : σ → Prop) (time : σ → Instant)
    (longest pause : Span) : Prop where
  now : ∀ w, steady w →
    (link.now w).1 = time w ∧ time (link.now w).2 = time w ∧ steady (link.now w).2
  receive : ∀ w, steady w →
    time w ≤ time (link.receive w).world ∧ time (link.receive w).world ≤ time w + longest.nanos ∧
      steady (link.receive w).world
  sleep : ∀ w, steady w →
    time w ≤ time (link.sleep pause w) ∧ time (link.sleep pause w) ≤ time w + pause.nanos ∧
      steady (link.sleep pause w)

/-- A reading of the bus takes some time together with the pause behind it. -/
def Link.Moves (link : Link σ) (steady : σ → Prop) (time : σ → Instant) (pause : Span) : Prop :=
  ∀ w, steady w → time w < time (link.sleep pause (link.now (link.receive w).world).2)

theorem Link.Punctual.measured {link : Link σ} {steady : σ → Prop} {time : σ → Instant}
    {longest : Span} (h : link.Punctual steady time longest) (pause : Span) :
    link.Measured steady time longest pause where
  now := h.now
  receive w hw := ⟨Nat.le_of_lt (h.receive w hw).1, (h.receive w hw).2⟩
  sleep := h.sleep pause

theorem Link.Punctual.moves {link : Link σ} {steady : σ → Prop} {time : σ → Instant}
    {longest : Span} (h : link.Punctual steady time longest) (pause : Span) :
    link.Moves steady time pause := by
  intro w hw
  obtain ⟨hreceived, -, hsteady⟩ := h.receive w hw
  obtain ⟨-, hnow, hsteady⟩ := h.now _ hsteady
  have hslept := (h.sleep pause _ hsteady).1
  rw [hnow] at hslept
  exact Nat.lt_of_lt_of_le hreceived hslept

namespace Silence

section Time

open Run

variable {link : Link σ} {pause longest : Span} {steady : σ → Prop} {time : σ → Instant}
  {o : Window} {polls : List Poll} {p : Poll} {before middle after : σ}

/-- A poll takes no longer than its reading of the bus. -/
theorem time_of_poll (h : link.Measured steady time longest pause) (hbefore : steady before)
    (hpoll : link.Polls p before after) :
    p.begun = time before ∧ time before ≤ time after ∧
      time after ≤ time before + longest.nanos ∧ steady after := by
  obtain ⟨hbegun, -, -, rfl⟩ := hpoll
  obtain ⟨hread, hnow, hsteady⟩ := h.now before hbefore
  obtain ⟨hlater, hmost, hsteady⟩ := h.receive _ hsteady
  obtain ⟨-, hdone, hsteady⟩ := h.now _ hsteady
  rw [hdone]
  rw [hnow] at hlater hmost
  exact ⟨hbegun.symm.trans hread, hlater, hmost, hsteady⟩

/-- Polls that are begun in time are over, with their pauses, not long after the timeout. -/
theorem by_of_pollsOn (h : link.Measured steady time longest pause) {last : Instant}
    (hlast : last = o.opened + o.timeout.nanos + longest.nanos + pause.nanos)
    (polls : List Poll) {more : List Poll} (hmore : link.PollsOn pause more before after)
    (hundecided : o.Undecided (polls ++ more)) (hbefore : By steady time last before) :
    By steady time last after := by
  induction hmore generalizing polls with
  | nothing world => exact hbefore
  | @poll p more before middle after first others ih =>
      obtain ⟨hrunning, -⟩ := hundecided polls p ⟨more, by rw [List.append_assoc]; rfl⟩
      obtain ⟨hbegun, -, hdone, hsteady⟩ := time_of_poll h hbefore.1 first
      obtain ⟨-, hslept, hsteady⟩ := h.sleep _ hsteady
      have hcons : polls ++ p :: more = polls ++ [p] ++ more := by rw [List.append_assoc]; rfl
      rw [hcons] at hundecided
      refine ih (polls ++ [p]) hundecided ⟨hsteady, ?_⟩
      rw [Window.Running, hbegun] at hrunning
      simp only [Instant] at *
      omega

/-- Every poll that goes by brings the timeout nearer. -/
theorem length_of_pollsOn (h : link.Measured steady time longest pause)
    (hmoves : link.Moves steady time pause) (polls : List Poll) {more : List Poll}
    (hmore : link.PollsOn pause more before after) (hundecided : o.Undecided (polls ++ more))
    (hbefore : steady before) :
    time before + more.length ≤ max (time before) (o.opened + o.timeout.nanos) := by
  induction hmore generalizing polls with
  | nothing world => exact Nat.le_max_left ..
  | @poll p more before middle after first others ih =>
      obtain ⟨hrunning, -⟩ := hundecided polls p ⟨more, by rw [List.append_assoc]; rfl⟩
      obtain ⟨hbegun, -, -, hsteady⟩ := time_of_poll h hbefore first
      obtain ⟨-, -, hsteady⟩ := h.sleep _ hsteady
      have hcons : polls ++ p :: more = polls ++ [p] ++ more := by rw [List.append_assoc]; rfl
      rw [hcons] at hundecided
      have hrest := ih (polls ++ [p]) hundecided hsteady
      obtain ⟨-, hnow, hread⟩ := h.now before hbefore
      have hmoved := hmoves _ hread
      rw [first.world, hnow] at hmoved
      rw [Window.Running, hbegun] at hrunning
      rw [List.length_cons]
      simp only [Instant] at *
      omega

theorem by_of_decides (h : link.Measured steady time longest pause) {last : Instant}
    (hlast : last = o.opened + o.timeout.nanos + longest.nanos + pause.nanos)
    {verdict : Except DiagnosticError Bool} (hdecides : o.Decides link polls middle verdict after)
    (hmiddle : By steady time last middle) : By steady time last after := by
  obtain ⟨hread, hnow, hsteady⟩ := h.now middle hmiddle.1
  cases hdecides with
  | confirmed running taken _ =>
      obtain ⟨hbegun, -, hdone, hafter⟩ := time_of_poll h hmiddle.1 taken
      refine ⟨hafter, ?_⟩
      rw [Window.Running, hbegun] at running
      simp only [Instant] at *
      omega
  | expired => exact ⟨hsteady, hnow ▸ hmiddle.2⟩
  | failed running _ =>
      obtain ⟨-, hmost, hafter⟩ := h.receive _ hsteady
      refine ⟨hafter, ?_⟩
      rw [Window.Running, hread] at running
      simp only [Instant] at *
      omega

end Time

/-! ### The whole watch -/

section Watch

open Run

variable (link : Link σ) (rounds : Nat) (bus : UInt8) (addresses : AddressSet) (timeout : Span)
  (settings : Settings)

/-- A watch reads the clock, and opens its window or refuses to. -/
theorem watch_eq (w : Logged σ) :
    ∃ w', w'.world = (link.now w.world).2 ∧
      watch link rounds bus addresses timeout settings w =
        if timeout ≤ settings.quiet then some (.error .invalidParameter, w')
        else loop (look link settings.poll) rounds
          (Window.opening bus addresses timeout settings (link.now w.world).1) w' := by
  refine ⟨{ w.note (.awaitingSilence settings.quiet bus addresses) with
    world := (link.now w.world).2 }, rfl, ?_⟩
  by_cases hshort : timeout ≤ settings.quiet
  · rw [if_pos hshort]
    simp only [watch, bind_apply, Run.note, Link.clock, Run.ofExcept, Window.open?, if_pos hshort]
    rfl
  · rw [if_neg hshort]
    simp only [watch, bind_apply, Run.note, Link.clock, Run.ofExcept, Window.open?, if_neg hshort]
    rfl

/-- What a watch comes to is its verdict, and nothing else. -/
theorem watch_eq_some_iff (w : Logged σ) (verdict : Except DiagnosticError Bool) (after : σ) :
    (watch link rounds bus addresses timeout settings w).map (fun e => (e.1, e.2.world)) =
        some (verdict, after) ↔
      Verdict link rounds bus addresses timeout settings w.world verdict after := by
  obtain ⟨w', hworld, hwatch⟩ := watch_eq link rounds bus addresses timeout settings w
  rw [hwatch]
  by_cases hshort : timeout ≤ settings.quiet
  · rw [if_pos hshort, Option.map_some, Option.some_inj, Prod.mk.injEq, hworld]
    constructor
    · rintro ⟨rfl, rfl⟩
      exact .refused hshort
    · rintro (_ | opens)
      · exact ⟨rfl, rfl⟩
      · exact absurd hshort (Nat.not_le.mpr opens)
  · rw [if_neg hshort]
    have hopens : settings.quiet < timeout := Nat.not_le.mp hshort
    constructor
    · intro hrun
      obtain ⟨⟨_, ended⟩, hloop, hpair⟩ := Option.map_eq_some_iff.mp hrun
      obtain ⟨rfl, rfl⟩ := Prod.mk.inj hpair
      have hend := loop_decides link settings.poll rounds
        (Window.opening bus addresses timeout settings (link.now w.world).1).undecided_nil w'
      rw [Window.behind_nil, hloop, hworld] at hend
      obtain ⟨polls, middle, hlength, hpolls, hundecided, hdecides⟩ := hend
      exact .decided hopens rfl hlength hpolls hundecided hdecides
    · rintro (short | ⟨-, rfl, fewer, passed, undecided, decides⟩)
      · exact absurd short hshort
      · exact loop_of_decides [] passed fewer undecided decides hworld

variable {link rounds bus addresses timeout settings}

/-- A watch is over no later than the timeout, a reading of the bus and a pause after its start. -/
theorem by_of_verdict {steady : σ → Prop} {time : σ → Instant} {longest : Span}
    (h : link.Measured steady time longest settings.poll) {before after : σ}
    (hbefore : steady before) {verdict : Except DiagnosticError Bool}
    (hverdict : Verdict link rounds bus addresses timeout settings before verdict after) :
    By steady time (time before + timeout.nanos + longest.nanos + settings.poll.nanos) after := by
  obtain ⟨hread, hnow, hsteady⟩ := h.now before hbefore
  have hbegun : By steady time (time before + timeout.nanos + longest.nanos + settings.poll.nanos)
      (link.now before).2 := by
    refine ⟨hsteady, ?_⟩
    rw [hnow]
    simp only [Instant] at *
    omega
  cases hverdict with
  | refused => exact hbegun
  | @decided o polls middle _ _ opens opened fewer passed undecided decides =>
      have hopened : o.opened = time before := by rw [opened]; exact hread
      have htimeout : o.timeout = timeout := by rw [opened]; rfl
      have hlast : time before + timeout.nanos + longest.nanos + settings.poll.nanos =
          o.opened + o.timeout.nanos + longest.nanos + settings.poll.nanos := by
        rw [hopened, htimeout]
      exact by_of_decides h hlast decides
        (by_of_pollsOn h hlast [] passed undecided hbegun)

/-- A watch whose polls take time ends if it may take one for every nanosecond of its timeout. -/
theorem exists_verdict (bus : UInt8) (addresses : AddressSet) {steady : σ → Prop}
    {time : σ → Instant} {longest : Span}
    (h : link.Measured steady time longest settings.poll)
    (hmoves : link.Moves steady time settings.poll) {w : Logged σ} (hw : steady w.world)
    (hrounds : timeout.nanos < rounds) :
    ∃ verdict after,
      watch link rounds bus addresses timeout settings w = some (verdict, after) := by
  obtain ⟨w', hworld, hwatch⟩ := watch_eq link rounds bus addresses timeout settings w
  rw [hwatch]
  by_cases hshort : timeout ≤ settings.quiet
  · exact ⟨_, w', if_pos hshort⟩
  · rw [if_neg hshort]
    have hend := loop_decides link settings.poll rounds
      (Window.opening bus addresses timeout settings (link.now w.world).1).undecided_nil w'
    rw [Window.behind_nil] at hend
    cases hloop : loop (look link settings.poll) rounds
        (Window.opening bus addresses timeout settings (link.now w.world).1) w' with
    | some ended => exact ⟨ended.1, ended.2, rfl⟩
    | none =>
        rw [hloop, hworld] at hend
        obtain ⟨polls, middle, hlength, hpolls, hundecided⟩ := hend
        obtain ⟨hread, hnow, hsteady⟩ := h.now w.world hw
        have hmost := length_of_pollsOn h hmoves [] hpolls hundecided hsteady
        have hopened : (Window.opening bus addresses timeout settings (link.now w.world).1).opened =
            time w.world := hread
        have htimeout : (Window.opening bus addresses timeout settings
            (link.now w.world).1).timeout = timeout := rfl
        rw [hlength, hnow, hopened, htimeout] at hmost
        simp only [Instant] at *
        omega

/-- Over every link, a watch comes to exactly its verdict: it is refused before anything is received
if the quiet span is not shorter than the timeout; otherwise it is decided by the first poll that
shows that the window is quiet, by the clock before a poll, or by a failure of the interface,
whichever comes first, and uses the link no more. If readings of the bus take no more than
`longest`, it is over no later than the timeout, such a reading and a pause after its beginning,
and if polls take time, then it does end. -/
theorem watch_exact (link : Link σ) (rounds : Nat) (bus : UInt8) (addresses : AddressSet)
    (timeout : Span) (settings : Settings) (w : Logged σ) :
    (∀ verdict after,
      (watch link rounds bus addresses timeout settings w).map (fun e => (e.1, e.2.world)) =
          some (verdict, after) ↔
        Verdict link rounds bus addresses timeout settings w.world verdict after) ∧
      ∀ steady time longest, link.Measured steady time longest settings.poll → steady w.world →
        (∀ verdict after,
          watch link rounds bus addresses timeout settings w = some (verdict, after) →
            time after.world ≤
              time w.world + timeout.nanos + longest.nanos + settings.poll.nanos) ∧
          (link.Moves steady time settings.poll → timeout.nanos < rounds →
            ∃ verdict after,
              watch link rounds bus addresses timeout settings w = some (verdict, after)) := by
  refine ⟨watch_eq_some_iff link rounds bus addresses timeout settings w, ?_⟩
  intro steady time longest hmeasured hw
  refine ⟨fun verdict after hrun => ?_, fun hmoves hrounds =>
    exists_verdict bus addresses hmeasured hmoves hw hrounds⟩
  have hmap : (watch link rounds bus addresses timeout settings w).map
      (fun e => (e.1, e.2.world)) = some (verdict, after.world) := by rw [hrun]; rfl
  exact (by_of_verdict hmeasured hw ((watch_eq_some_iff ..).mp hmap)).2

open Scripted in
/-- A bus whose readings take 10 ms each, with a frame in the second of them. -/
def sighted : Playback where
  readings := [
    { takes := .ofMillis 10, result := .ok [] },
    { takes := .ofMillis 10, result := .ok [{ address := 0x500, bus := 0, data := [1] }] }]

open Scripted in
/-- After this frame, 30 ms of silence are confirmed by the fourth poll, at 55 ms. -/
theorem watch_exact_sighted :
    ∃ after, watch Playback.link 100000001 0 (.ofList [0x500]) { nanos := 100000000 }
          { quiet := { nanos := 30000000 }, poll := { nanos := 5000000 } } { world := sighted } =
        some (.ok true, after) ∧
      Verdict Playback.link 100000001 0 (.ofList [0x500]) { nanos := 100000000 }
        { quiet := { nanos := 30000000 }, poll := { nanos := 5000000 } } sighted (.ok true)
          after.world ∧
      after.world.clock = 55000000 ∧ after.world.clock ≤ 0 + 100000000 + 10000000 + 5000000 := by
  have hrun : (watch Playback.link 100000001 0 (.ofList [0x500]) { nanos := 100000000 }
      { quiet := { nanos := 30000000 }, poll := { nanos := 5000000 } } { world := sighted }).map
        (fun e => (e.1, e.2.world.clock)) = some (.ok true, 55000000) := by decide +kernel
  have hpunctual := Playback.link_punctual { nanos := 10000000 }
  have hsteady : sighted.Steady { nanos := 10000000 } := ⟨by decide, by decide⟩
  obtain ⟨hexact, hends⟩ := watch_exact Playback.link 100000001 0 (.ofList [0x500])
    { nanos := 100000000 } { quiet := { nanos := 30000000 }, poll := { nanos := 5000000 } }
    { world := sighted }
  obtain ⟨htime, hend⟩ := hends _ _ _ (hpunctual.measured _) hsteady
  obtain ⟨verdict, after, hwatch⟩ := hend (hpunctual.moves _) (by decide)
  rw [hwatch, Option.map_some, Option.some_inj, Prod.mk.injEq] at hrun
  obtain ⟨rfl, hclock⟩ := hrun
  refine ⟨after, hwatch, (hexact _ _).mp ?_, hclock, htime _ _ hwatch⟩
  rw [hwatch]
  rfl

end Watch

end Silence

end EcuQuiet
