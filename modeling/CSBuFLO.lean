import CSBuFLO.Adaptation
import CSBuFLO.Balance
import CSBuFLO.BlockCipher
import CSBuFLO.Breaker
import CSBuFLO.Buckets
import CSBuFLO.Buffer
import CSBuFLO.Cells
import CSBuFLO.Channel
import CSBuFLO.ChannelClose
import CSBuFLO.ChannelCloseSsh1
import CSBuFLO.ChannelEof
import CSBuFLO.ChannelRefines
import CSBuFLO.ChannelSsh1
import CSBuFLO.ChannelWindow
import CSBuFLO.CipherCtr
import CSBuFLO.Control
import CSBuFLO.Credit
import CSBuFLO.Cursor
import CSBuFLO.CutStream
import CSBuFLO.Deadlock
import CSBuFLO.Deattack
import CSBuFLO.Delivery
import CSBuFLO.Discard
import CSBuFLO.Drain
import CSBuFLO.Duplex
import CSBuFLO.Endpoint
import CSBuFLO.Follow
import CSBuFLO.ForwardTargets
import CSBuFLO.Forwarding
import CSBuFLO.Handshake
import CSBuFLO.ItemOrder
import CSBuFLO.KeyAgreement
import CSBuFLO.KeyExchange
import CSBuFLO.LoadSt
import CSBuFLO.Median
import CSBuFLO.Merge
import CSBuFLO.Misc
import CSBuFLO.Multiplex
import CSBuFLO.MultiplexInv
import CSBuFLO.Negotiate
import CSBuFLO.Network
import CSBuFLO.Notifications
import CSBuFLO.Observer
import CSBuFLO.Pacing
import CSBuFLO.PacketFormat
import CSBuFLO.PacketRead
import CSBuFLO.PacketWrite
import CSBuFLO.Padding
import CSBuFLO.PageAgreement
import CSBuFLO.PageBudget
import CSBuFLO.PageLock
import CSBuFLO.PageRate
import CSBuFLO.Pages
import CSBuFLO.PollReturns
import CSBuFLO.Polling
import CSBuFLO.Prepare
import CSBuFLO.Probing
import CSBuFLO.Protocol
import CSBuFLO.Queue
import CSBuFLO.Rate
import CSBuFLO.RateChanges
import CSBuFLO.Reach
import CSBuFLO.Rekey
import CSBuFLO.Replies
import CSBuFLO.Resume
import CSBuFLO.Ring
import CSBuFLO.Roaming
import CSBuFLO.RunLength
import CSBuFLO.Scanf
import CSBuFLO.Schedule
import CSBuFLO.SecureChannel
import CSBuFLO.SentBytes
import CSBuFLO.Serial
import CSBuFLO.Slot
import CSBuFLO.SlotTable
import CSBuFLO.Socks
import CSBuFLO.Split
import CSBuFLO.StopDraw
import CSBuFLO.Timestamps
import CSBuFLO.Trace
import CSBuFLO.TranscriptEnd
import CSBuFLO.TranscriptWrite
import CSBuFLO.Transition
import CSBuFLO.Transparency
import CSBuFLO.TwoRun
import CSBuFLO.Url
import CSBuFLO.UrlAck
import CSBuFLO.UrlMemory
import CSBuFLO.UrlTable
import CSBuFLO.Volume
import CSBuFLO.WireFormat
import CSBuFLO.WriteSize
import CSBuFLO.WriteWait
