import Wayfinder.Server.Transport

/-!
# What a request has done

The acts on the way to an answer, by the kind of the request: it is recorded, and its owner
gets it as it came.
-/

namespace Wayfinder.Transport

set_option autoImplicit false

/-! ### What a request has done -/

/-- Whom the request would have the authority sign for or against. -/
def aboutNode : ReqKind → Option Bytes
  | .revokeNode nodeMac | .submitCsr nodeMac .. | .approveCsr nodeMac _ => some nodeMac
  | _ => none

/-- What may be done for a request, by a peer with such a certificate, under such a verdict:
it goes to its owner as it came, `SetConfig` in two halves of which the second waits for the
first, and a node leaves the VPN after it has left the mesh. -/
inductive Act.For (ctx : ServeContext) (cert : Option MembershipCert) (grant : Grant)
    (owners : Owners) (kind : ReqKind) : Act → Prop where
  | readRouter (h : kind.rpc.owner = .routerRead) : For ctx cert grant owners kind
      (.readRouter ⟨some kind⟩)
  | toRouter (h : kind.rpc.owner ≠ .authority) (hwhole : ∀ config, kind ≠ .setConfig config) :
      For ctx cert grant owners kind (.toRouter ⟨some kind⟩)
  | half {config : Option RuntimeConfig} (h : kind = .setConfig config) :
      For ctx cert grant owners kind (.toRouter (routerHalf config))
  | toPolicy {config : RuntimeConfig} {message : EnrollmentPolicyMessage}
      {policy : EnrollmentPolicyData} (h : kind = .setConfig (some config))
      (hmessage : config.enrollment = some message)
      (hpolicy : enrollmentPolicyData message = .ok policy) (hctx : ctx.authority = true)
      (hfirst : owners.router (routerHalf (some config)) = .answered ⟨some .empty⟩) :
      For ctx cert grant owners kind (.toPolicy policy)
  | toAuthority (h : kind.rpc.owner = .authority) (hctx : ctx.authority = true)
      (hself : aboutNode kind ≠ some grant.context.ownMac.asBytes) :
      For ctx cert grant owners kind (.toAuthority ⟨some kind⟩)
  | mint {mac : Mac} (h : kind = .getVpnEnrollment)
      (hmac : credentialMac grant.decision cert grant.context.ownMac = some mac) :
      For ctx cert grant owners kind (.mint mac)
  | listPeers (h : kind = .listVpnPeers) : For ctx cert grant owners kind .listPeers
  | unregister {nodeMac : Bytes} {mac : Mac} (h : kind = .revokeVpnPeer nodeMac)
      (hmac : Mac.tryFrom nodeMac = some mac) : For ctx cert grant owners kind (.unregister mac)
  | alongside {nodeMac : Bytes} {mac : Mac} (h : kind = .revokeNode nodeMac)
      (hmac : Mac.tryFrom nodeMac = some mac)
      (hfirst : owners.authority ⟨some kind⟩ = some (.answered ⟨some .empty⟩)) :
      For ctx cert grant owners kind (.unregister mac)

section Serve
variable {ctx : ServeContext} {cert : Option MembershipCert} {grant : Grant} {owners : Owners}
  {kind : ReqKind} {act : Act} {request : WayfinderRequest} {response : WayfinderResponse}

@[simp] theorem refuse_acts (message : String) : (Service.refuse message).acts = [] := rfl

@[simp] theorem answer_acts (response : RespKind) : (Service.answer response).acts = [] := rfl

@[simp] theorem after_acts (acts : List Act) (s : Service) : (s.after acts).acts = acts ++ s.acts :=
  rfl

theorem andThen_acts {s : Service} {f : WayfinderResponse → Service} :
    ∃ rest, (s.andThen f).acts = s.acts ++ rest ∧
      ∀ act ∈ rest, ∃ response, s.response = some response ∧ act ∈ (f response).acts := by
  unfold Service.andThen
  cases hresponse : s.response with
  | none => exact ⟨[], (List.append_nil _).symm, fun _ h => absurd h List.not_mem_nil⟩
  | some response => exact ⟨(f response).acts, rfl, fun _ h => ⟨response, rfl, h⟩⟩

theorem mem_andThen {s : Service} {f : WayfinderResponse → Service}
    (h : act ∈ (s.andThen f).acts) :
    act ∈ s.acts ∨ ∃ response, s.response = some response ∧ act ∈ (f response).acts := by
  obtain ⟨rest, hrest, hmem⟩ := andThen_acts (s := s) (f := f)
  rw [hrest] at h
  obtain h | h := List.mem_append.mp h
  · exact .inl h
  · exact .inr (hmem act h)

theorem forwardToRouter_acts : (forwardToRouter owners request).acts ⊆ [.toRouter request] := by
  unfold forwardToRouter
  split
  · exact List.nil_subset _
  · exact List.Subset.refl _
  · exact List.Subset.refl _

theorem forwardToRouter_response (h : (forwardToRouter owners request).response = some response) :
    owners.router request = .answered response := by
  unfold forwardToRouter at h
  split at h
  · cases h
  · cases h
  · rename_i answered
    obtain rfl := Option.some.inj h
    exact answered

theorem forwardToAuthority_acts :
    (forwardToAuthority owners request).acts ⊆ [.toAuthority request] := by
  unfold forwardToAuthority
  split
  · exact List.nil_subset _
  · exact List.nil_subset _
  · exact List.Subset.refl _
  · exact List.Subset.refl _

theorem errorResponse_ne {message : String} : errorResponse message ≠ ⟨some .empty⟩ := by
  intro h
  cases h

theorem forwardToAuthority_empty
    (h : (forwardToAuthority owners request).response = some ⟨some .empty⟩) :
    owners.authority request = some (.answered ⟨some .empty⟩) := by
  unfold forwardToAuthority at h
  split at h
  · exact absurd (Option.some.inj h) errorResponse_ne
  · exact absurd (Option.some.inj h) errorResponse_ne
  · exact absurd (Option.some.inj h) errorResponse_ne
  · rename_i answered
    obtain rfl := Option.some.inj h
    exact answered

theorem setEnrollmentPolicy_acts {policy : EnrollmentPolicyData} :
    (setEnrollmentPolicy ctx owners policy).acts ⊆ [.toPolicy policy] := by
  unfold setEnrollmentPolicy
  split
  · exact List.nil_subset _
  split
  · exact List.nil_subset _
  · exact List.nil_subset _
  · exact List.Subset.refl _
  · exact List.Subset.refl _
  · exact List.Subset.refl _

theorem setEnrollmentPolicy_authority {policy : EnrollmentPolicyData}
    (h : act ∈ (setEnrollmentPolicy ctx owners policy).acts) : ctx.authority = true := by
  unfold setEnrollmentPolicy at h
  split at h
  · cases h
  · rename_i hctx
    simpa using hctx

theorem applyEnrollment_acts {enrollment : Option EnrollmentPolicyData}
    (h : act ∈ (applyEnrollment ctx owners enrollment response).acts) :
    ∃ policy, enrollment = some policy ∧ response = ⟨some .empty⟩ ∧
      act ∈ (setEnrollmentPolicy ctx owners policy).acts := by
  cases enrollment with
  | none => cases h
  | some policy =>
    obtain ⟨answer⟩ := response
    cases answer with
    | none => cases h
    | some kind =>
      cases kind with
      | empty => exact ⟨policy, rfl, rfl, h⟩
      | error message => cases h
      | vpnEnrollment server key => cases h
      | listVpnPeers peers => cases h
      | other message => cases h

/-- The enrollment half of a `SetConfig` is the message's own field, converted. -/
theorem mapM_enrollment {config : Option RuntimeConfig} {policy : EnrollmentPolicyData}
    (h : (config.bind RuntimeConfig.enrollment).mapM enrollmentPolicyData = .ok (some policy)) :
    ∃ c message, config = some c ∧ c.enrollment = some message ∧
      enrollmentPolicyData message = .ok policy := by
  cases config with
  | none => cases h
  | some c =>
    rw [Option.bind_some] at h
    cases hmessage : c.enrollment with
    | none =>
      rw [hmessage] at h
      cases h
    | some message =>
      rw [hmessage, Option.mapM_some] at h
      cases hpolicy : enrollmentPolicyData message with
      | error text =>
        rw [hpolicy] at h
        cases h
      | ok data =>
        rw [hpolicy] at h
        cases h
        exact ⟨c, message, rfl, hmessage, hpolicy⟩

theorem serveSetConfig_acts {config : Option RuntimeConfig}
    (h : act ∈ (serveSetConfig ctx owners config).acts) :
    act.For ctx cert grant owners (.setConfig config) := by
  unfold serveSetConfig at h
  split at h
  · cases h
  rename_i enrollment henrollment
  obtain h | ⟨response, hresponse, h⟩ := mem_andThen h
  · rw [List.mem_singleton.mp (forwardToRouter_acts h)]
    exact .half rfl
  · obtain ⟨policy, rfl, rfl, hact⟩ := applyEnrollment_acts h
    obtain ⟨c, message, rfl, hmessage, hpolicy⟩ := mapM_enrollment henrollment
    rw [List.mem_singleton.mp (setEnrollmentPolicy_acts hact)]
    exact .toPolicy rfl hmessage hpolicy (setEnrollmentPolicy_authority hact)
      (forwardToRouter_response hresponse)

theorem serveRead_acts (hread : kind.rpc.owner = .routerRead)
    (h : act ∈ (serveRead ctx owners ⟨some kind⟩).acts) : act.For ctx cert grant owners kind := by
  have hforward : ∀ act ∈ (forwardToRouter owners ⟨some kind⟩).acts,
      act.For ctx cert grant owners kind := by
    intro act h
    rw [List.mem_singleton.mp (forwardToRouter_acts h)]
    refine .toRouter ?_ ?_
    · rw [hread]
      decide
    · rintro config rfl
      cases hread
  unfold serveRead at h
  split at h
  · cases hanswer : owners.serveRead ⟨some kind⟩ with
    | none =>
      rw [hanswer] at h
      exact hforward act h
    | some response =>
      rw [hanswer] at h
      rw [List.mem_singleton.mp h]
      exact .readRouter hread
  · exact hforward act h

/-- A request is with the owner of its kind. -/
theorem serveOwner_acts (hself : ctx.authority = true → aboutNode kind ≠
    some grant.context.ownMac.asBytes) (h : act ∈ (serveOwner ctx owners ⟨some kind⟩).acts) :
    act.For ctx cert grant owners kind := by
  unfold serveOwner at h
  split at h
  · rename_i hnone
    cases hnone
  · rename_i config heq
    obtain rfl := Option.some.inj heq
    exact serveSetConfig_acts h
  · rename_i kind' hwhole heq
    obtain rfl := Option.some.inj heq
    split at h
    · rename_i howner
      split at h
      · rename_i hctx
        rw [List.mem_singleton.mp (forwardToAuthority_acts h)]
        exact .toAuthority howner hctx (hself hctx)
      · cases h
    · rename_i howner
      exact serveRead_acts howner h
    all_goals
      rename_i howner
      rw [List.mem_singleton.mp (forwardToRouter_acts h)]
      refine .toRouter ?_ ?_
      · rw [howner]
        decide
      · rintro config rfl
        exact hwhole config rfl

theorem vpnEnroll_acts {decision : MgmtAccess} {ownMac : Mac}
    (h : act ∈ (vpnEnroll decision cert ownMac owners).acts) :
    ∃ mac, credentialMac decision cert ownMac = some mac ∧ act = .mint mac := by
  unfold vpnEnroll at h
  split at h
  · cases h
  · rename_i mac hmac
    refine ⟨mac, hmac, ?_⟩
    split at h
    · exact List.mem_singleton.mp h
    · exact List.mem_singleton.mp h

theorem vpnListPeers_acts : (vpnListPeers owners).acts ⊆ [.listPeers] := by
  unfold vpnListPeers
  split
  · exact List.Subset.refl _
  · exact List.Subset.refl _

theorem vpnRevoke_acts {nodeMac : Bytes} (h : act ∈ (vpnRevoke owners nodeMac).acts) :
    ∃ mac, Mac.tryFrom nodeMac = some mac ∧ act = .unregister mac := by
  unfold vpnRevoke at h
  split at h
  · cases h
  · rename_i mac hmac
    refine ⟨mac, hmac, ?_⟩
    split at h
    · exact List.mem_singleton.mp h
    · exact List.mem_singleton.mp h

theorem serveVpnRequest_acts {service : Service}
    (hservice : serveVpnRequest ctx grant.decision cert grant.context.ownMac owners kind =
      some service) (h : act ∈ service.acts) : act.For ctx cert grant owners kind := by
  unfold serveVpnRequest at hservice
  split at hservice
  · obtain rfl := Option.some.inj hservice
    split at h
    · obtain ⟨mac, hmac, rfl⟩ := vpnEnroll_acts h
      exact .mint rfl hmac
    · cases h
  · obtain rfl := Option.some.inj hservice
    split at h
    · rw [List.mem_singleton.mp (vpnListPeers_acts h)]
      exact .listPeers rfl
    · cases h
  · obtain rfl := Option.some.inj hservice
    split at h
    · obtain ⟨mac, hmac, rfl⟩ := vpnRevoke_acts h
      exact .unregister rfl hmac
    · cases h
  · cases hservice

theorem aboutNode_ne {ownMac : Mac} (h : aboutSelf ctx ownMac kind = none)
    (hctx : ctx.authority = true) : aboutNode kind ≠ some ownMac.asBytes := by
  intro heq
  cases kind <;> simp [aboutNode] at heq <;> simp [aboutSelf, heq, hctx] at h

theorem serveByFacet_revokeNode {nodeMac : Bytes}
    (h : (serveByFacet ctx owners ⟨some (.revokeNode nodeMac)⟩).response = some ⟨some .empty⟩) :
    owners.authority ⟨some (.revokeNode nodeMac)⟩ = some (.answered ⟨some .empty⟩) := by
  have hresponse : (if ctx.authority then forwardToAuthority owners ⟨some (.revokeNode nodeMac)⟩
      else Service.refuse notAProvider).response = some ⟨some .empty⟩ := h
  split at hresponse
  · exact forwardToAuthority_empty hresponse
  · exact absurd (Option.some.inj hresponse) errorResponse_ne

theorem revokeVpnAlongsideMesh_acts {nodeMac : Bytes}
    (h : act ∈ (revokeVpnAlongsideMesh ctx owners nodeMac response).acts) :
    ∃ mac, Mac.tryFrom nodeMac = some mac ∧ act = .unregister mac := by
  unfold revokeVpnAlongsideMesh at h
  split at h
  · cases h
  · rename_i mac hmac
    refine ⟨mac, hmac, ?_⟩
    split at h
    · cases h
    split at h
    · exact List.mem_singleton.mp h
    · exact List.mem_singleton.mp h

theorem afterMesh_acts
    (hresponse : (serveByFacet ctx owners ⟨some kind⟩).response = some response)
    (h : act ∈ (afterMesh ctx owners ⟨some kind⟩ response).acts) :
    act.For ctx cert grant owners kind := by
  unfold afterMesh at h
  split at h
  · rename_i nodeMac hkind hempty
    obtain rfl := Option.some.inj hkind
    obtain ⟨answer⟩ := response
    obtain rfl : answer = some .empty := hempty
    obtain ⟨mac, hmac, rfl⟩ := revokeVpnAlongsideMesh_acts h
    exact .alongside rfl hmac (serveByFacet_revokeNode hresponse)
  · cases h

theorem serveVpnRequest_owner {service : Service} {decision : MgmtAccess} {ownMac : Mac}
    (h : serveVpnRequest ctx decision cert ownMac owners kind = some service) :
    kind.rpc.owner = .transport := by
  cases kind <;> first | rfl | cases h

theorem mint_not_recorded {mac : Mac} : .mint mac ∉ auditRequest ⟨some kind⟩ := by
  unfold auditRequest
  cases haudit : kind.rpc.audit <;> simp [haudit]

/-- What a request that is let through has done: it is recorded, unless the connection itself
answers it, and nothing is done that is not for it. -/
structure Does (ctx : ServeContext) (cert : Option MembershipCert) (grant : Grant)
    (allow : RateLimit → Bool) (owners : Owners) (kind : ReqKind) (acts : List Act) : Prop where
  permitted : permits grant.decision kind = true
  metered : overLimit grant.decision allow kind = none
  done : ∃ done, (acts = auditRequest ⟨some kind⟩ ++ done ∨
    kind.rpc.owner = .transport ∧ acts = done) ∧ ∀ act ∈ done, act.For ctx cert grant owners kind

/-- Either nothing is done for a request, or it was let through. -/
theorem serve_does {e : Capacities} {a : AuthCapacities} {peer : Peer} {m : Moment e a} :
    (serve ctx peer grant m request).acts = [] ∨ ∃ kind, request = ⟨some kind⟩ ∧
      Does ctx peer.cert grant m.allow m.owners kind (serve ctx peer grant m request).acts := by
  obtain ⟨answer⟩ := request
  cases answer with
  | none => exact .inl rfl
  | some kind =>
    unfold serve
    dsimp only
    split
    · exact .inl rfl
    rename_i hpermits
    split
    · exact .inl rfl
    rename_i hlimit
    split
    · rename_i service hservice
      exact .inr ⟨kind, rfl, by simpa using hpermits, hlimit, service.acts,
        .inr ⟨serveVpnRequest_owner hservice, rfl⟩,
        fun act h => serveVpnRequest_acts hservice h⟩
    split
    · exact .inl rfl
    rename_i hself
    obtain ⟨rest, hrest, hmem⟩ := andThen_acts
      (s := serveByFacet ctx m.owners ⟨some kind⟩) (f := afterMesh ctx m.owners ⟨some kind⟩)
    refine .inr ⟨kind, rfl, by simpa using hpermits, hlimit,
      (serveOwner ctx m.owners ⟨some kind⟩).acts ++ rest, .inl ?_, ?_⟩
    · rw [hrest, ← List.append_assoc]
      rfl
    · intro act h
      obtain h | h := List.mem_append.mp h
      · exact serveOwner_acts (aboutNode_ne hself) h
      · obtain ⟨response, hresponse, hact⟩ := hmem act h
        exact afterMesh_acts hresponse hact

end Serve

end Wayfinder.Transport
