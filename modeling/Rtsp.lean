import Rtsp.Text.Base64
import Rtsp.Md5
import Rtsp.Message.Parse
import Rtsp.Framing.Chunk
import Rtsp.Framing.Source
import Rtsp.Transport
import Rtsp.Description.Parse
import Rtsp.Rtp.Sender
import Rtsp.Depacketizer
import Rtsp.Authorization
import Rtsp.Connection
import Rtsp.Player.Script
import Rtsp.Main
import Rtsp.Proofs.Text.Utf8
import Rtsp.Proofs.Text.Words
import Rtsp.Proofs.Text.Hex
import Rtsp.Proofs.Message.StartLine
import Rtsp.Proofs.Message.Headers
import Rtsp.Proofs.Framing.Line
import Rtsp.Proofs.Framing.Run
import Rtsp.Proofs.Framing.RoundTrip
import Rtsp.Proofs.Framing.Arrival
import Rtsp.Proofs.Framing.Units
import Rtsp.Proofs.Framing.Truncation
import Rtsp.Proofs.Framing.WholeMessage
import Rtsp.Proofs.Framing.Source
import Rtsp.Proofs.Authorization.Fields
import Rtsp.Proofs.Authorization.Digest
import Rtsp.Proofs.Connection.Pending
import Rtsp.Proofs.Connection.History
import Rtsp.Proofs.Connection.Numbers
import Rtsp.Proofs.Connection.Outstanding
import Rtsp.Proofs.Connection.Correlation
import Rtsp.Proofs.Depacketizer.Feed
import Rtsp.Proofs.Depacketizer.NalAssembly
import Rtsp.Proofs.Depacketizer.NalPayload
import Rtsp.Proofs.Depacketizer.H264
import Rtsp.Proofs.Depacketizer.H265
import Rtsp.Proofs.Depacketizer.Isolation
import Rtsp.Proofs.Depacketizer.Jpeg
import Rtsp.Proofs.Connection.Written
import Rtsp.Proofs.Connection.Arrival
import Rtsp.Proofs.Connection.Events
import Rtsp.Proofs.Player.Turn
import Rtsp.Proofs.Player.Record
import Rtsp.Proofs.Player.Protocol
import Rtsp.Proofs.Player.Pairing
import Rtsp.Proofs.Connection.Values
import Rtsp.Proofs.Framing.Delivery
import Rtsp.Proofs.Authorization.Answer
import Rtsp.Proofs.Player.Authorized
import Rtsp.Proofs.Framing.Forwarding
import Rtsp.Proofs.Depacketizer.JpegCache
import Rtsp.Proofs.Depacketizer.JpegImage
import Rtsp.Proofs.Depacketizer.JpegSegments
import Rtsp.Proofs.Transport
import Rtsp.Proofs.TransportList
import Rtsp.Proofs.Text.Base64
import Rtsp.Proofs.Description.Lines
import Rtsp.Proofs.Description.Attributes
import Rtsp.Proofs.Description.RoundTrip
import Rtsp.Proofs.Framing.Dropped
import Rtsp.Proofs.Authorization.Offer
import Rtsp.Proofs.Authorization.Basic
import Rtsp.Proofs.Depacketizer.Count
import Rtsp.Proofs.Player.Media
import Rtsp.Proofs.Player.Tracks
import Rtsp.Proofs.Framing.Progress
import Rtsp.Proofs.Message.Layout
import Rtsp.Proofs.Message.RoundTrip
import Rtsp.Rtp.View
import Rtsp.Authorization.Scan
import Rtsp.Proofs.Rtp.Packet
import Rtsp.Proofs.Rtp.Datagram
import Rtsp.Proofs.Rtp.View
import Rtsp.Proofs.Rtp.Sender
import Rtsp.Proofs.Message.Edits
import Rtsp.Proofs.Depacketizer.Conservation
import Rtsp.Proofs.Depacketizer.Refused
import Rtsp.Proofs.Depacketizer.Aac
import Rtsp.Proofs.Player.Target
import Rtsp.Proofs.Description.Sections
import Rtsp.Proofs.Depacketizer.Aggregate
import Rtsp.Proofs.Framing.RawLines
import Rtsp.Proofs.Authorization.Scan
import Rtsp.Proofs.Authorization.Spelling
