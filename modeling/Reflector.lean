import Reflector.Device
import Reflector.Dissection
import Reflector.Ring.Records
import Reflector.Udp.RuleTable
import Reflector.Proofs.Arp.Fifo
import Reflector.Proofs.Device.Backpressure
import Reflector.Proofs.Device.Delivery
import Reflector.Proofs.Device.Failures
import Reflector.Proofs.Device.Poll
import Reflector.Proofs.Interface.Datagrams
import Reflector.Proofs.Interface.Effects
import Reflector.Proofs.Interface.Emission
import Reflector.Proofs.Interface.Exchange
import Reflector.Proofs.Interface.Groups
import Reflector.Proofs.Interface.Lengths
import Reflector.Proofs.Interface.Questions
import Reflector.Proofs.Interface.Replies
import Reflector.Proofs.Interface.Resolution
import Reflector.Proofs.Interface.Retry
import Reflector.Proofs.Interface.Silence
import Reflector.Proofs.Ipv4.Netmask
import Reflector.Proofs.Link.Agreement
import Reflector.Proofs.Link.Reassembly
import Reflector.Proofs.Link.Transmission
import Reflector.Proofs.Packets.Codecs
import Reflector.Proofs.Packets.OnesComplement
import Reflector.Proofs.Packets.Patching
import Reflector.Proofs.Packets.Safety
import Reflector.Proofs.Packets.Seals
import Reflector.Proofs.Ring.Isolation
import Reflector.Proofs.Sntp.Client
import Reflector.Proofs.Sntp.Clock
import Reflector.Proofs.Sntp.Ticks
import Reflector.Proofs.Text.Addresses
import Reflector.Proofs.Text.Numerals
