import KwinApi.Daemon.Main

/-!
# The end of the daemon

When the daemon comes to serve, and which events end it. An error of the event loop does, and so do
`SIGTERM` and `SIGINT` if their sources could be added. The loss of its own name does not:
`on_name_lost` forgets the event loop before it asks it to end.

## Main definitions

* `KwinApi.Main.StartsUp` — every step of the start succeeds
* `KwinApi.Main.Terminating` — the events that are meant to end the daemon
* `KwinApi.Main.Unheeded` — those among them that do not
* `KwinApi.Main.OrderlyRun` — a run ends with its terminating event, and ends orderly

## Main results

* `Main.goes_startUp` — the daemon comes to serve exactly if every step of the start succeeds
* `Main.eventLoop_ignore` — the loss of another name has no effect
* `Main.orderlyRun_iff` — a run is orderly unless its terminating event goes unheeded by a daemon
  that serves
-/

namespace KwinApi

namespace Main

variable {lib : SdEvent} {cfg : Config} {o : Outcomes} {d d' : Daemon}

/-! ### When the daemon comes to serve -/

/-- Every step of the start succeeds. -/
structure StartsUp (cfg : Config) (o : Outcomes) : Prop where
  config : cfg.showHelp = false ∧ cfg.showVersion = false ∧ cfg.errors = [] ∧ 0 ≤ o.eventDefault
  openUser : 0 ≤ o.openUser
  requestName : 0 ≤ o.requestName cfg.serviceName
  attach : 0 ≤ o.attachEvent ∧ 0 ≤ o.addVtable (objectPathForName cfg.serviceName) cfg.serviceName
  listen : 0 ≤ o.listen.socket ∧
    (slash cfg.workDir (ascii "service.socket")).length < kSunPathSize ∧ 0 ≤ o.listen.bind ∧
    0 ≤ o.listen.listen ∧ 0 ≤ o.listen.addIo
  notCheck : cfg.checkOnly = false
  script : o.fileExists cfg.scriptPath = some true ∧ o.isRegularFile cfg.scriptPath = some true
  staged : (stageKwinscript o.stage o.files cfg.scriptPath cfg.workDir cfg.serviceName).2 = [] ∧
    o.absolute (slash cfg.workDir (ascii "kwinscript.js")) ≠ none
  /-- Some attempt is answered with a script, and the script runs. -/
  runs : ∃ id, 0 ≤ id ∧
    LoadsWithin cfg.loadRetries (lastAttempt cfg.loadRetries) o.loadScript 1 id ∧
    runScript o.run id = true

theorem goes_begin : Goes (begin cfg o) ↔ cfg.showHelp = false ∧ cfg.showVersion = false ∧
    cfg.errors = [] ∧ 0 ≤ o.eventDefault := by
  rw [begin]
  split_ifs with hhelp hversion herrors
  · exact iff_of_false (not_goes_error _) fun h => absurd hhelp (by rw [h.1]; decide)
  · exact iff_of_false (not_goes_error _) fun h => absurd hversion (by rw [h.2.1]; decide)
  · exact iff_of_false (not_goes_error _) fun h => herrors h.2.2.1
  · rw [goes_leaveIf, not_lt]
    simp [hhelp, hversion, not_not.mp herrors]

theorem goes_openBus (h : d = idle cfg) : Goes (openBus o d) ↔ 0 ≤ o.openUser := by
  have hclosed : d.dbus.bus = none := by rw [h]; rfl
  rw [openBus, goes_leaveIf, DbusService.openBus_lt_zero hclosed, not_lt]

theorem goes_requestName (h : Starting cfg d) :
    Goes (requestName o d) ↔ 0 ≤ o.requestName cfg.serviceName := by
  have hname := h.toAcquired.serviceName
  rw [requestName, goes_leaveIf, DbusService.requestName_lt_zero, hname, not_lt]

theorem goes_attach (h : Starting cfg d) : Goes (attach o d) ↔
    0 ≤ o.attachEvent ∧ 0 ≤ o.addVtable (objectPathForName cfg.serviceName) cfg.serviceName := by
  have hname := h.toAcquired.serviceName
  have hpath : d.dbus.objectPath = objectPathForName cfg.serviceName := congrArg Prod.snd h.names
  rw [attach, goes_leaveIf, DbusService.attach_lt_zero, hname, hpath, not_or, not_lt, not_lt]

theorem goes_startServer : Goes (startServer cfg o d) ↔ 0 ≤ o.listen.socket ∧
    (slash cfg.workDir (ascii "service.socket")).length < kSunPathSize ∧ 0 ≤ o.listen.bind ∧
    0 ≤ o.listen.listen ∧ 0 ≤ o.listen.addIo := by
  rw [startServer, goes_leaveIf, Listener.start_ok_iff]
  rfl

theorem goes_check : Goes (check cfg d) ↔ cfg.checkOnly = false := by
  rw [check, goes_leaveIf, Bool.not_eq_true]

theorem goes_findScript : Goes (findScript cfg o d) ↔
    o.fileExists cfg.scriptPath = some true ∧ o.isRegularFile cfg.scriptPath = some true := by
  rw [findScript]
  split
  · exact iff_of_false (not_goes_error _) (by simp [*])
  · exact iff_of_false (not_goes_error _) (by simp [*])
  · exact iff_of_false (not_goes_error _) (by simp [*])
  · rename_i regular hexists hregular
    rw [goes_leaveIf, hexists, hregular]
    simp

theorem goes_stage : Goes (stage cfg o d) ↔
    (stageKwinscript o.stage o.files cfg.scriptPath cfg.workDir cfg.serviceName).2 = [] ∧
      o.absolute (slash cfg.workDir (ascii "kwinscript.js")) ≠ none := by
  rw [stage]
  split_ifs with hstaged
  · exact iff_of_false (not_goes_error _) fun h => hstaged h.1
  · rw [goes_leaveIf, and_iff_right (not_not.mp hstaged)]

theorem goes_run (h : LoadedBy cfg o d) : Goes (run o d) ↔
    runScript o.run (loadWithRetries cfg.loadRetries o.loadScript).id = true := by
  rw [run, goes_leaveIf, h.attempts, Bool.not_eq_false]

/-- The script is loaded and runs exactly if some attempt is answered with a script that does. -/
theorem goes_load_run (h : Starting cfg d) : Goes (load cfg o d >>= run o) ↔
    ∃ id, 0 ≤ id ∧ LoadsWithin cfg.loadRetries (lastAttempt cfg.loadRetries) o.loadScript 1 id ∧
      runScript o.run id = true := by
  have hload : Goes (load cfg o d) ↔ 0 ≤ (loadWithRetries cfg.loadRetries o.loadScript).id := by
    rw [load, goes_leaveIf, not_lt]
  rw [(meets_load h).goes_bind hload fun _ hloaded => goes_run hloaded]
  constructor
  · rintro ⟨hid, hruns⟩
    exact ⟨_, hid, (loadWithRetries_iff hid).mp rfl, hruns⟩
  · rintro ⟨id, hid, hloads, hruns⟩
    rw [(loadWithRetries_iff hid).mpr hloads]
    exact ⟨hid, hruns⟩

/-- **The daemon comes to serve exactly if every step of the start succeeds.** -/
theorem goes_startUp : Goes (startUp cfg o) ↔ StartsUp cfg o := by
  have hchain : Goes (startUp cfg o) ↔ _ := meets_begin.goes_bind goes_begin fun _ hidle =>
    (meets_openBus hidle).goes_bind (goes_openBus hidle) fun _ h =>
    (meets_requestName h).goes_bind (goes_requestName h) fun _ h =>
    (meets_attach h).goes_bind (goes_attach h) fun _ h =>
    (meets_startServer h).goes_bind goes_startServer fun _ h =>
    (meets_check h).goes_bind goes_check fun _ h =>
    (meets_findScript h).goes_bind goes_findScript fun _ h =>
    (meets_stage h).goes_bind goes_stage fun _ h => goes_load_run h
  refine hchain.trans ⟨?_, ?_⟩
  · rintro ⟨hconfig, hopen, hname, hattach, hlisten, hcheck, hscript, hstaged, hruns⟩
    exact ⟨hconfig, hopen, hname, hattach, hlisten, hcheck, hscript, hstaged, hruns⟩
  · rintro ⟨hconfig, hopen, hname, hattach, hlisten, hcheck, hscript, hstaged, hruns⟩
    exact ⟨hconfig, hopen, hname, hattach, hlisten, hcheck, hscript, hstaged, hruns⟩

/-! ### The events -/

/-- The events that are meant to end the daemon. -/
inductive Terminating (serviceName : List UInt8) : ServeEvent → Prop
  | sigterm : Terminating serviceName .sigterm
  | sigint : Terminating serviceName .sigint
  | nameLost : Terminating serviceName (.nameLost (some serviceName))
  | loopError (errno : ℕ) : Terminating serviceName (.loopError errno)

/-- The loss of the own name, and a signal whose source could not be added. -/
def Unheeded (cfg : Config) (o : Outcomes) (t : ServeEvent) : Prop :=
  t = .nameLost (some cfg.serviceName) ∨ t = .sigterm ∧ o.addSigterm < 0 ∨
    t = .sigint ∧ o.addSigint < 0

theorem afterHandler_of_none (h : d.loop.exitCode = none) : afterHandler d = (d, none) := by
  rw [afterHandler, h]

/-- A loop that goes on has not been asked to end. -/
theorem exitCode_of_afterHandler (h : afterHandler d = (d', none)) : d'.loop.exitCode = none := by
  rw [afterHandler] at h
  split at h
  · cases h
  · cases h
    assumption

theorem exitCode_of_signal (hloop : d.loop.exitCode = none) {source : Bool}
    (h : signal lib d source = (d', none)) : d'.loop.exitCode = none := by
  rw [signal] at h
  split_ifs at h
  · exact exitCode_of_afterHandler h
  · cases h
    exact hloop

theorem exitCode_of_turn (hloop : d.loop.exitCode = none) {event : ServeEvent}
    (h : turn lib d event = (d', none)) : d'.loop.exitCode = none := by
  cases event with
  | sigterm | sigint => exact exitCode_of_signal hloop h
  | nameLost => exact exitCode_of_afterHandler h
  | loopError errno => cases h

/-- A turn after which the loop goes on leaves a daemon that serves. -/
theorem Loaded.turn (h : Loaded cfg d) {event : ServeEvent}
    (hturn : turn lib d event = (d', none)) : Loaded cfg d' := by
  obtain ⟨hacquired, hload⟩ := @Acquired.turn lib cfg d h.toAcquired event
  rw [hturn] at hacquired hload
  refine ⟨hacquired, ?_, exitCode_of_turn h.loop hturn⟩
  rw [hload]
  exact h.loaded

/-- The loss of another name changes nothing. -/
theorem Loaded.turn_other (h : Loaded cfg d) {name : Option (List UInt8)}
    (hname : name ≠ some cfg.serviceName) : Main.turn lib d (.nameLost name) = (d, none) := by
  have hother : name ≠ some d.dbus.serviceName := by
    rw [h.toAcquired.serviceName]
    exact hname
  have hsame : nameLost lib d name = d := by
    rw [nameLost, DbusService.onNameLost_other hother]
    exact ite_id d
  rw [Main.turn, hsame]
  exact afterHandler_of_none h.loop

/-- The loss of the own name does not end the loop: its handle is gone when it is asked to. -/
theorem Loaded.turn_own (h : Loaded cfg d) (hlib : lib.Documented) :
    (Main.turn lib d (.nameLost (some cfg.serviceName))).2 = none := by
  have hloop : (nameLost lib d (some cfg.serviceName)).loop = d.loop := by
    rw [← h.toAcquired.serviceName, nameLost, DbusService.onNameLost_own hlib h.up]
    split_ifs <;> rfl
  rw [Main.turn, afterHandler_of_none]
  rw [hloop, h.loop]

/-- A signal ends the loop exactly if it has a source. -/
theorem signal_none_iff (hlib : lib.Documented) {source : Bool} :
    (signal lib d source).2 = none ↔ source = false := by
  cases source with
  | false => exact iff_of_true rfl rfl
  | true =>
    have hends : (signal lib d true).2 = some 0 := by
      rw [signal, if_pos rfl, afterHandler, onSignal, hlib.exit_loop]
    rw [hends]
    exact iff_of_false (by simp) (by simp)

/-- Of the terminating events those that are not heeded leave the daemon serving. -/
theorem Loaded.turn_terminating (h : Loaded cfg d) (hlib : lib.Documented) {t : ServeEvent}
    (ht : Terminating cfg.serviceName t) :
    (Main.turn lib (Main.addSignals o d) t).2 = none ↔ Unheeded cfg o t := by
  cases ht with
  | sigterm => simp [Main.turn, signal_none_iff hlib, Main.addSignals, Unheeded]
  | sigint => simp [Main.turn, signal_none_iff hlib, Main.addSignals, Unheeded]
  | nameLost => exact iff_of_true ((h.addSignals o).turn_own hlib) (.inl rfl)
  | loopError errno => exact iff_of_false (by simp [Main.turn]) (by simp [Unheeded])

/-! ### The loop -/

/-- **The loss of another name has no effect**, wherever it falls among the events. -/
theorem eventLoop_ignore (h : Loaded cfg d) {name : Option (List UInt8)}
    (hname : name ≠ some cfg.serviceName) (before after : List ServeEvent) :
    eventLoop lib d (before ++ .nameLost name :: after) = eventLoop lib d (before ++ after) := by
  induction before generalizing d with
  | nil => rw [List.nil_append, eventLoop, h.turn_other hname, List.nil_append]
  | cons event before ih =>
    rw [List.cons_append, List.cons_append, eventLoop, eventLoop]
    rcases hturn : turn lib d event with ⟨d', r⟩
    cases r with
    | none => exact ih (h.turn hturn)
    | some r => rfl

theorem eventLoop_others (h : Loaded cfg d) {others : List (Option (List UInt8))}
    (hothers : some cfg.serviceName ∉ others) (events : List ServeEvent) :
    eventLoop lib d (others.map .nameLost ++ events) = eventLoop lib d events := by
  induction others with
  | nil => rfl
  | cons name others ih =>
    rw [List.mem_cons, not_or] at hothers
    obtain ⟨hname, hrest⟩ := hothers
    calc eventLoop lib d (.nameLost name :: (others.map .nameLost ++ events))
        = eventLoop lib d (others.map .nameLost ++ events) :=
          eventLoop_ignore h (Ne.symm hname) [] _
      _ = eventLoop lib d events := ih hrest

/-- After the loss of other names a terminating event leaves the daemon serving only if it is not
heeded. -/
theorem goes_serve (h : Loaded cfg d) (hlib : lib.Documented) {others : List (Option (List UInt8))}
    (hothers : some cfg.serviceName ∉ others) {t : ServeEvent}
    (ht : Terminating cfg.serviceName t) :
    Goes (serve lib o (others.map .nameLost ++ [t]) d) ↔ Unheeded cfg o t := by
  rw [← h.turn_terminating hlib ht, serve, eventLoop_others (h.addSignals o) hothers, eventLoop]
  obtain ⟨d', r⟩ := turn lib (addSignals o d) t
  cases r with
  | none => exact iff_of_true (goes_ok d') rfl
  | some r => exact iff_of_false (not_goes_error _) (by simp)

/-! ### Runs -/

theorem goes_main (hlib : lib.Documented) {others : List (Option (List UInt8))}
    (hothers : some cfg.serviceName ∉ others) {t : ServeEvent}
    (ht : Terminating cfg.serviceName t) : Goes (main lib o cfg (others.map .nameLost ++ [t])) ↔
      StartsUp cfg o ∧ Unheeded cfg o t :=
  meets_startUp.goes_bind goes_startUp fun _ h => goes_serve h.toLoaded hlib hothers ht

theorem main_ignore {name : Option (List UInt8)} (hname : name ≠ some cfg.serviceName)
    (before after : List ServeEvent) : main lib o cfg (before ++ .nameLost name :: after) =
      main lib o cfg (before ++ after) := by
  refine meets_startUp.bind_congr fun d h => ?_
  rw [serve, eventLoop_ignore (h.toLoaded.addSignals o) hname, serve]

/-- A run that loses other names and then receives a terminating event ends; whenever a run returns,
it ends orderly; and the loss of another name makes no difference to any run. -/
structure OrderlyRun (lib : SdEvent) (cfg : Config) (o : Outcomes)
    (others : List (Option (List UInt8))) (t : ServeEvent) : Prop where
  ends : ∃ e, main lib o cfg (others.map .nameLost ++ [t]) = .error e
  orderly : ∀ events e, main lib o cfg events = .error e → EndsOrderly e
  ignored : ∀ before after name, name ≠ some cfg.serviceName →
    main lib o cfg (before ++ .nameLost name :: after) = main lib o cfg (before ++ after)

/-- A run ends unless the daemon comes to serve and does not heed the event. -/
theorem ends_iff (hlib : lib.Documented) {others : List (Option (List UInt8))}
    (hothers : some cfg.serviceName ∉ others) {t : ServeEvent}
    (ht : Terminating cfg.serviceName t) :
    (∃ e, main lib o cfg (others.map .nameLost ++ [t]) = .error e) ↔
      (StartsUp cfg o → ¬ Unheeded cfg o t) := by
  rw [exists_error_iff, goes_main hlib hothers ht, not_and]

/-- **A run is orderly exactly if the daemon does not come to serve or heeds its terminating
event**: it is not the loss of its own name, nor a signal whose source could not be added. -/
theorem orderlyRun_iff (lib : SdEvent) (hlib : lib.Documented) (cfg : Config) (o : Outcomes)
    (others : List (Option (List UInt8))) (hothers : some cfg.serviceName ∉ others)
    (t : ServeEvent) (ht : Terminating cfg.serviceName t) :
    OrderlyRun lib cfg o others t ↔ (StartsUp cfg o → ¬ Unheeded cfg o t) := by
  rw [← ends_iff hlib hothers ht]
  constructor
  · intro h
    exact h.ends
  · intro hends
    refine ⟨hends, fun events e he => ?_, fun before after name hname => ?_⟩
    · exact (meets_main events).of_error he
    · exact main_ignore hname before after

/-! ### An example -/

/-- `sd_event_exit` as documented. -/
def systemEvent : SdEvent where
  exit valid code loop := if valid then { exitCode := some code } else loop

theorem documented_systemEvent : systemEvent.Documented := ⟨fun _ _ => rfl, fun _ _ => rfl⟩

/-- The default service name, and a bundle to stage. -/
def exampleConfig : Config where
  scriptPath := ascii "/opt/kwinscript.js"
  pluginName := ascii "kwin-api"
  workDir := ascii "/run/kwin-api"

/-- Every step succeeds, and the script is loaded at the first attempt. -/
def smoothOutcomes : Outcomes where
  eventDefault := 0
  openUser := 0
  requestName _ := 1
  addMatch := 0
  attachEvent := 0
  addVtable _ _ := 0
  listen := { socket := 3, bind := 0, listen := 0, addIo := 0 }
  fileExists _ := some true
  isRegularFile _ := some true
  stage := { absolute := id, parentPath := fun _ => ascii "/run/kwin-api", openIn := true,
             bad := false, createDirectories := none, openOut := true, written := none }
  files _ := some []
  absolute := some
  loadScript _ := .id 0
  run _ := 0
  addSigterm := 0
  addSigint := 0
  unload := { message := 0, append := 0, send := 0, flush := 0 }

theorem startsUp_example : StartsUp exampleConfig smoothOutcomes where
  config := ⟨rfl, rfl, rfl, le_refl 0⟩
  openUser := le_refl 0
  requestName := by decide
  attach := ⟨le_refl 0, le_refl 0⟩
  listen := by decide
  notCheck := rfl
  script := ⟨rfl, rfl⟩
  staged := ⟨rfl, by simp [smoothOutcomes]⟩
  runs := by
    refine ⟨0, le_refl 0, ⟨1, le_refl 1, by decide, fun j hj hlt => ?_, rfl⟩, rfl⟩
    omega

/-- With the daemon serving and another name lost before, `SIGTERM` ends it orderly. -/
theorem orderlyRun_sigterm : OrderlyRun systemEvent exampleConfig smoothOutcomes
    [some (ascii "org.example.Other")] .sigterm :=
  (orderlyRun_iff systemEvent documented_systemEvent exampleConfig smoothOutcomes
    [some (ascii "org.example.Other")] (by decide) .sigterm .sigterm).mpr
    fun _ => by simp [Unheeded, smoothOutcomes]

/-- The loss of its own name leaves the daemon serving. -/
theorem own_name_lost : ¬ ∀ (lib : SdEvent), lib.Documented → ∀ (cfg : Config) (o : Outcomes)
    (others : List (Option (List UInt8))), some cfg.serviceName ∉ others →
    ∀ t, Terminating cfg.serviceName t → OrderlyRun lib cfg o others t := by
  intro h
  have hrun := h systemEvent documented_systemEvent exampleConfig smoothOutcomes [] (by simp)
    (.nameLost (some exampleConfig.serviceName)) .nameLost
  have hends := (ends_iff documented_systemEvent (by simp) .nameLost).mp hrun.ends
  exact hends startsUp_example (.inl rfl)

end Main

end KwinApi
