import RustyTls.Core.Bytes
import RustyTls.Core.Result
import RustyTls.Core.Consume
import RustyTls.Core.Walk
import RustyTls.Core.Calendar
import RustyTls.Core.Calls
import RustyTls.Core.Raises
import RustyTls.Core.Iterator
import RustyTls.Core.Base128
import RustyTls.Core.Attempts
import RustyTls.Wire
import RustyTls.Der
import RustyTls.X509
import RustyTls.Ring
import RustyTls.Verify
import RustyTls.Name
import RustyTls.Path
import RustyTls.PathSound
import RustyTls.PathComplete
import RustyTls.PathTrials
import RustyTls.PathErrors
import RustyTls.NameSound
import RustyTls.Record
import RustyTls.RecordSound
import RustyTls.Schedule
import RustyTls.Hkdf
import RustyTls.Handshake
import RustyTls.Framing
import RustyTls.Keys
import RustyTls.Ticket
import RustyTls.Connection
import RustyTls.Endpoint
import RustyTls.Client
import RustyTls.Server
import RustyTls.ClientSteps
import RustyTls.ClientSound
import RustyTls.ClientRetry
import RustyTls.HandshakeCodec
import RustyTls.Psk
import RustyTls.ServerSteps
import RustyTls.ServerSound
import RustyTls.ServerRetry
import RustyTls.Provenance
import RustyTls.KeyChange
import RustyTls.TicketSound
import RustyTls.Sessions
import RustyTls.Resumption
import RustyTls.FlightCodec
import RustyTls.ScheduleSound
import RustyTls.PostHandshake
import RustyTls.Ratchet
import RustyTls.Reassembly
import RustyTls.Symbolic
import RustyTls.Seals
import RustyTls.Nonces
import RustyTls.HelloOffer
import RustyTls.HelloExchange
import RustyTls.FlightExchange
import RustyTls.AnswerExchange
import RustyTls.Delivery
import RustyTls.Network
import RustyTls.Agreement
import RustyTls.ResumedFlag
import RustyTls.HelloLimits
import RustyTls.FlightLength
import RustyTls.DerCanonical
import RustyTls.X509Canonical
import RustyTls.SubjectAltNames
import RustyTls.CodecInverse
import RustyTls.Fragmentation
import RustyTls.NameLabels
import RustyTls.RecordPadding
import RustyTls.PathLength
import RustyTls.KeyUsageBits
import RustyTls.Times
import RustyTls.RecordCounter
import RustyTls.TicketAge
import RustyTls.SessionIds
import RustyTls.NoPanic
import RustyTls.SearchWork
import RustyTls.EntryIterators
import RustyTls.NestedVectors
import RustyTls.Oids
import RustyTls.ChainIdentity
import RustyTls.LabelSeparation
import RustyTls.Views
import RustyTls.ActiveNetwork
import RustyTls.SignedAgreement
import RustyTls.IssuedTickets
import RustyTls.MutualAgreement
import RustyTls.Duplex
import RustyTls.Returning
